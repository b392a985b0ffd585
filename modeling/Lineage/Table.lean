/-!
# Tables: one value for each key, in the order in which the keys came

Every registry of the library (listed parents, hooks, auxiliary providers, cached answers, codecs, named tokens) is a table. The
keys of a table are pairwise distinct by construction, so its size counts keys, and the lemmas below say what each operation does to
the view `find?`.
-/

namespace Lineage

/-- Keys with their values: no key occurs twice, and the order is that of insertion. -/
structure Table (κ α : Type) where
  entries : List (κ × α)
  nodup : (entries.map Prod.fst).Nodup
  deriving DecidableEq, Repr

namespace Table

variable {κ α : Type}

/-- The table without keys. -/
def empty : Table κ α := ⟨[], List.nodup_nil⟩

instance : Inhabited (Table κ α) := ⟨empty⟩

/-- The keys, oldest first. -/
def keys (t : Table κ α) : List κ := t.entries.map Prod.fst

/-- The number of keys. -/
def size (t : Table κ α) : Nat := t.entries.length

/-- Whether the table has no key. -/
def isEmpty (t : Table κ α) : Bool := t.entries.isEmpty

@[simp] theorem size_empty : (empty : Table κ α).size = 0 := rfl

variable [DecidableEq κ]

/-- The value beside the first occurrence of a key. -/
def findIn (k : κ) : List (κ × α) → Option α
  | [] => none
  | (a, v) :: rest => if a = k then some v else findIn k rest

/-- Puts a value beside the first occurrence of a key, at the end if there is none. -/
def putIn (k : κ) (v : α) : List (κ × α) → List (κ × α)
  | [] => [(k, v)]
  | (a, w) :: rest => if a = k then (a, v) :: rest else (a, w) :: putIn k v rest

theorem findIn_eq_none_iff {k : κ} {es : List (κ × α)} : findIn k es = none ↔ k ∉ es.map Prod.fst := by
  induction es with
  | nil => simp [findIn]
  | cons e es ih => grind [findIn]

theorem mem_of_findIn {k : κ} {v : α} {es : List (κ × α)} (h : findIn k es = some v) : (k, v) ∈ es := by
  induction es with
  | nil => cases h
  | cons e es ih =>
    rw [findIn] at h
    split at h
    · next he =>
      rw [← he, ← Option.some.inj h]
      exact List.mem_cons_self
    · exact List.mem_cons_of_mem e (ih h)

theorem findIn_append (k : κ) (es fs : List (κ × α)) : findIn k (es ++ fs) = (findIn k es).or (findIn k fs) := by
  induction es with
  | nil => rfl
  | cons e es ih =>
    simp only [List.cons_append, findIn]
    split
    · rfl
    · exact ih

theorem findIn_putIn (k j : κ) (v : α) (es : List (κ × α)) :
    findIn j (putIn k v es) = if j = k then some v else findIn j es := by
  induction es with
  | nil => grind [putIn, findIn]
  | cons e es ih => grind [putIn, findIn]

theorem findIn_filter (k j : κ) (es : List (κ × α)) :
    findIn j (es.filter (·.1 ≠ k)) = if j = k then none else findIn j es := by
  induction es with
  | nil => simp [findIn]
  | cons e es ih => grind [findIn]

/-- A value that is there already changes nothing. -/
theorem putIn_of_findIn {k : κ} {v : α} {es : List (κ × α)} (h : findIn k es = some v) : putIn k v es = es := by
  induction es with
  | nil => cases h
  | cons e es ih =>
    rw [findIn] at h
    rw [putIn]
    split at h
    · next he => rw [if_pos he, ← Option.some.inj h]
    · next he => rw [if_neg he, ih h]

/-- Putting a value leaves the keys as they are, or appends one that was not there. -/
theorem keys_putIn (k : κ) (v : α) (es : List (κ × α)) :
    (putIn k v es).map Prod.fst = if k ∈ es.map Prod.fst then es.map Prod.fst else es.map Prod.fst ++ [k] := by
  induction es with
  | nil => simp [putIn]
  | cons e es ih => grind [putIn]

/-- A value for a new key is put at the end. -/
theorem putIn_of_not_mem {k : κ} (v : α) {es : List (κ × α)} (h : k ∉ es.map Prod.fst) : putIn k v es = es ++ [(k, v)] := by
  induction es with
  | nil => rfl
  | cons e es ih => grind [putIn]

/-- The value of a key. -/
def find? (t : Table κ α) (k : κ) : Option α := findIn k t.entries

/-- Whether the table has a key. -/
def contains (t : Table κ α) (k : κ) : Bool := (t.find? k).isSome

/-- Gives a key its value; a key that already has one keeps its place. -/
def set (t : Table κ α) (k : κ) (v : α) : Table κ α :=
  ⟨putIn k v t.entries, by
    have h := t.nodup
    rw [keys_putIn]
    split
    · exact h
    · next hk => grind [List.nodup_append]⟩

/-- Gives a key its value, unless it already has one. -/
def insertNew (t : Table κ α) (k : κ) (v : α) : Table κ α := if t.contains k then t else t.set k v

/-- Takes a key away. -/
def erase (t : Table κ α) (k : κ) : Table κ α :=
  ⟨t.entries.filter (·.1 ≠ k), (List.Sublist.map _ List.filter_sublist).nodup t.nodup⟩

/-! ## What each operation does to the view -/

@[simp] theorem find?_empty (k : κ) : (empty : Table κ α).find? k = none := rfl

theorem find?_eq_none_iff {t : Table κ α} {k : κ} : t.find? k = none ↔ k ∉ t.keys := findIn_eq_none_iff

/-- What is found is one of the entries. -/
theorem mem_of_find? {t : Table κ α} {k : κ} {v : α} (h : t.find? k = some v) : (k, v) ∈ t.entries := mem_of_findIn h

/-- Whether the table has a key, read off its list of keys. -/
theorem contains_iff {t : Table κ α} {k : κ} : t.contains k = true ↔ k ∈ t.keys := by
  rw [contains, ← Decidable.not_iff_not, ← find?_eq_none_iff, Bool.not_eq_true, Option.isSome_eq_false_iff,
    Option.isNone_iff_eq_none]

/-- A key has the value it was given last. -/
theorem find?_set (t : Table κ α) (k j : κ) (v : α) : (t.set k v).find? j = if j = k then some v else t.find? j :=
  findIn_putIn k j v t.entries

/-- To give a key the value that it has changes nothing. -/
theorem set_of_find?_eq_some {t : Table κ α} {k : κ} {v : α} (h : t.find? k = some v) : t.set k v = t := by
  obtain ⟨es, hnodup⟩ := t
  simp only [set, putIn_of_findIn h]

/-- A new key comes last. -/
theorem entries_set_of_not_mem {t : Table κ α} {k : κ} (v : α) (h : k ∉ t.keys) : (t.set k v).entries = t.entries ++ [(k, v)] :=
  putIn_of_not_mem v h

/-- A key is given its first value once and for all. -/
theorem find?_insertNew (t : Table κ α) (k j : κ) (v : α) :
    (t.insertNew k v).find? j = if j = k then some ((t.find? k).getD v) else t.find? j := by
  unfold insertNew contains
  cases h : t.find? k with
  | none => simp [find?_set]
  | some w =>
    simp only [Option.isSome_some, if_true, Option.getD_some]
    split
    · next hj => exact hj ▸ h
    · rfl

/-- An erased key has no value, and the others keep theirs. -/
theorem find?_erase (t : Table κ α) (k j : κ) : (t.erase k).find? j = if j = k then none else t.find? j :=
  findIn_filter k j t.entries

/-- A value for a new key adds one to the size, a value for a key that is there adds nothing. -/
theorem size_set (t : Table κ α) (k : κ) (v : α) : (t.set k v).size = if t.contains k then t.size else t.size + 1 := by
  have h := congrArg List.length (keys_putIn k v t.entries)
  rw [List.length_map] at h
  show (putIn k v t.entries).length = _
  rw [h]
  by_cases hk : k ∈ t.entries.map Prod.fst
  · have hc : t.contains k = true := contains_iff.2 hk
    simp [hk, hc, size]
  · have hc : t.contains k = false := by
      rw [← Bool.not_eq_true, contains_iff]
      exact hk
    simp [hk, hc, size]

/-- A new key adds one to the size, a key that is there adds nothing. -/
theorem size_insertNew (t : Table κ α) (k : κ) (v : α) :
    (t.insertNew k v).size = if t.contains k then t.size else t.size + 1 := by
  unfold insertNew
  split
  · rfl
  · next h => rw [size_set, if_neg h]

end Table
end Lineage
