import Lineage.Cache
import Mathlib.Data.Finset.Card

/-!
# What a cache remembers

A cache is called again and again: to keep an answer, to look one up, to forget everything. What it knows on a branch can be told from
the calls alone. Of the answers that it was given since the branch was emptied last it knows the first one for every key: `given` is the
list of those answers, `Recalls` ties such a list to a shelf, and every call keeps the two together. Two runs are compared as well: a
shelf that `Outweighs` another has for one user the same answers, and for all users together no fewer. As long as nothing overflows a
user has in a cache what the cache would have without the calls of others.
-/

namespace Lineage.Cache

/-- What can be asked of a cache. -/
inductive Call where
  | add (b : Branch) (scope : Scope) (t : Token) (a : Answer)
  | lookup (b : Branch) (scope : Scope) (t : Token)
  | clear
  deriving DecidableEq, Repr

namespace Call

/-- A call, carried out. Only a lookup has something to return. -/
def run : Call → Cache → Option Entry × Cache
  | .add b scope t a, c => (none, (c.add b scope t a).1)
  | .lookup b scope t, c => c.lookup b scope t
  | .clear, c => (none, c.clear)

/-- Whether a call is about a branch. Forgetting is about both. -/
def isAbout (b : Branch) : Call → Bool
  | .add b' .. | .lookup b' .. => b' = b
  | .clear => true

/-- Whether a call may be one of a user. Forgetting may be anybody's. -/
def isOf (user : String) : Call → Bool
  | .add _ scope .. | .lookup _ scope _ => scope = some user
  | .clear => true

/-- Whether a call is made for nobody. -/
def isAnonymous : Call → Bool
  | .add _ scope .. | .lookup _ scope _ => scope = none
  | .clear => false

end Call

/-- The cache after some calls. -/
def after (c : Cache) (calls : List Call) : Cache := calls.foldl (fun c call => (call.run c).2) c

/-- The number of keys that something was given for. -/
def keyCount (given : List (Key × Entry)) : Nat := (given.map Prod.fst).toFinset.card

/-- What a branch was given, after one more answer: with more keys than allowed, everything is gone, this answer included. -/
def receive (maxSize : Nat) (given : List (Key × Entry)) (x : Key × Entry) : List (Key × Entry) :=
  if maxSize < keyCount (given ++ [x]) then [] else given ++ [x]

/-- What a branch was given since it was emptied last, after one more call. -/
def noted (maxSize : Nat) (b : Branch) (given : List (Key × Entry)) : Call → List (Key × Entry)
  | .add b' (some user) t a => if b' = b then receive maxSize given (⟨user, t.identity⟩, ⟨t, a⟩) else given
  | .add _ none .. | .lookup .. => given
  | .clear => []

/-- What a branch was given by some calls since it was emptied last, in order. -/
def given (maxSize : Nat) (b : Branch) (calls : List Call) : List (Key × Entry) := calls.foldl (noted maxSize b) []

variable {settings : CacheSettings} {c c' : Cache} {b : Branch} {user : String} {maxSize : Nat} {k : Key} {e : Entry}
  {s s' q q' : Shelf} {l : List (Key × Entry)} {call : Call} {calls : List Call}

/-! ## What a call does to a shelf -/

/-- What a call does to the shelf of a branch. The other shelf does not matter for that. -/
def Call.shelve (settings : CacheSettings) (b : Branch) : Call → Shelf → Shelf
  | .add b' (some user) t a, s =>
    if settings.enabled ∧ b' = b then (s.keep settings.maxSize ⟨user, t.identity⟩ ⟨t, a⟩).1 else s
  | .lookup b' (some user) t, s =>
    if settings.enabled ∧ b' = b then s.count (s.entries.find? ⟨user, t.identity⟩).isSome else s
  | .add _ none .., s | .lookup _ none _, s => s
  | .clear, s => { s with entries := Table.empty }

theorem Call.shelve_add (he : settings.enabled = true) (b : Branch) (user : String) (t : Token) (a : Answer) (s : Shelf) :
    (Call.add b (some user) t a).shelve settings b s = (s.keep settings.maxSize ⟨user, t.identity⟩ ⟨t, a⟩).1 :=
  if_pos ⟨he, rfl⟩

theorem Call.shelve_lookup (he : settings.enabled = true) (b : Branch) (user : String) (t : Token) (s : Shelf) :
    (Call.lookup b (some user) t).shelve settings b s = s.count (s.entries.find? ⟨user, t.identity⟩).isSome :=
  if_pos ⟨he, rfl⟩

theorem shelf_update (c : Cache) (b b' : Branch) (f : Shelf → Shelf) :
    (c.withShelf b' (f (c.shelf b'))).shelf b = if b' = b then f (c.shelf b) else c.shelf b := by
  rw [shelf_withShelf]
  by_cases hb : b' = b
  · rw [if_pos hb, if_pos hb.symm, hb]
  · rw [if_neg hb, if_neg (Ne.symm hb)]

/-- Each shelf goes its own way, under settings that stay. -/
theorem run_eq (c : Cache) (call : Call) :
    (call.run c).2.settings = c.settings ∧ ∀ b, (call.run c).2.shelf b = call.shelve c.settings b (c.shelf b) := by
  cases call with
  | add b' scope t a =>
    cases scope with
    | none => simp [Call.run, Call.shelve, add, userFor]
    | some user =>
      cases he : c.settings.enabled with
      | false => simp [Call.run, Call.shelve, add, userFor, he]
      | true =>
        have hadd : (c.add b' (some user) t a).1 =
            c.withShelf b' ((c.shelf b').keep c.settings.maxSize ⟨user, t.identity⟩ ⟨t, a⟩).1 := by
          simp [add, userFor, he]
        refine ⟨by rw [Call.run, hadd, settings_withShelf], fun b => ?_⟩
        rw [Call.run, hadd, shelf_update c b b' fun s => (s.keep c.settings.maxSize ⟨user, t.identity⟩ ⟨t, a⟩).1, Call.shelve, he]
        simp
  | lookup b' scope t =>
    cases scope with
    | none => simp [Call.run, Call.shelve, lookup, userFor]
    | some user =>
      cases he : c.settings.enabled with
      | false => simp [Call.run, Call.shelve, lookup, userFor, he]
      | true =>
        have hlookup : (c.lookup b' (some user) t).2 =
            c.withShelf b' ((c.shelf b').count ((c.shelf b').entries.find? ⟨user, t.identity⟩).isSome) := by
          simp [lookup, userFor, he]
        refine ⟨by rw [Call.run, hlookup, settings_withShelf], fun b => ?_⟩
        rw [Call.run, hlookup, shelf_update c b b' fun s => s.count (s.entries.find? ⟨user, t.identity⟩).isSome, Call.shelve, he]
        simp
  | clear => exact ⟨rfl, fun b => by cases b <;> rfl⟩

theorem settings_lookup (c : Cache) (b : Branch) (scope : Scope) (t : Token) : (c.lookup b scope t).2.settings = c.settings :=
  (run_eq c (.lookup b scope t)).1

theorem settings_add (c : Cache) (b : Branch) (scope : Scope) (t : Token) (a : Answer) :
    (c.add b scope t a).1.settings = c.settings :=
  (run_eq c (.add b scope t a)).1

theorem after_append (c : Cache) (calls more : List Call) : c.after (calls ++ more) = (c.after calls).after more :=
  List.foldl_append

theorem settings_after (c : Cache) (calls : List Call) : (c.after calls).settings = c.settings := by
  induction calls generalizing c with
  | nil => rfl
  | cons call calls ih => exact (ih (call.run c).2).trans (run_eq c call).1

theorem shelf_after (c : Cache) (b : Branch) (calls : List Call) :
    (c.after calls).shelf b = calls.foldl (fun s call => call.shelve c.settings b s) (c.shelf b) := by
  induction calls generalizing c with
  | nil => rfl
  | cons call calls ih =>
    have hrun := run_eq c call
    rw [List.foldl_cons, ← hrun.2, ← hrun.1]
    exact ih (call.run c).2

@[simp] theorem Shelf.entries_count (s : Shelf) (hit : Bool) : (s.count hit).entries = s.entries := by cases hit <;> rfl

@[simp] theorem Shelf.resets_count (s : Shelf) (hit : Bool) : (s.count hit).resets = s.resets := by cases hit <;> rfl

/-- A call keeps an answer on a shelf, or it forgets everything, or it changes no answer there. -/
theorem Call.shelve_cases (settings : CacheSettings) (b : Branch) (call : Call) :
    (∃ user t a, call = .add b (some user) t a ∧
      ∀ s, call.shelve settings b s = (s.keep settings.maxSize ⟨user, t.identity⟩ ⟨t, a⟩).1) ∨
    call = .clear ∨
    ((∀ s, (call.shelve settings b s).entries = s.entries ∧ (call.shelve settings b s).resets = s.resets) ∧
      (settings.enabled = true → ∀ l, noted settings.maxSize b l call = l)) := by
  cases call with
  | add b' scope t a =>
    cases scope with
    | none => exact Or.inr (Or.inr ⟨fun _ => ⟨rfl, rfl⟩, fun _ _ => rfl⟩)
    | some user =>
      by_cases hused : settings.enabled ∧ b' = b
      · exact Or.inl ⟨user, t, a, by rw [hused.2], fun s => if_pos hused⟩
      · refine Or.inr (Or.inr ⟨fun s => ?_, fun he l => if_neg fun hb => hused ⟨he, hb⟩⟩)
        rw [shelve, if_neg hused]
        exact ⟨rfl, rfl⟩
  | lookup b' scope t =>
    refine Or.inr (Or.inr ⟨fun s => ?_, fun _ _ => rfl⟩)
    cases scope with
    | none => exact ⟨rfl, rfl⟩
    | some user =>
      rw [shelve]
      split
      · exact ⟨s.entries_count _, s.resets_count _⟩
      · exact ⟨rfl, rfl⟩
  | clear => exact Or.inr (Or.inl rfl)

/-- A call that is not about a branch leaves its shelf alone. -/
theorem Call.shelve_of_not_isAbout (h : call.isAbout b = false) (s : Shelf) : call.shelve settings b s = s := by
  cases call with
  | add b' scope t a =>
    cases scope with
    | none => rfl
    | some user => exact if_neg fun hused => of_decide_eq_false h hused.2
  | lookup b' scope t =>
    cases scope with
    | none => rfl
    | some user => exact if_neg fun hused => of_decide_eq_false h hused.2
  | clear => cases h

/-- What is not about a branch may as well not happen to its shelf. -/
theorem shelf_after_filter (c : Cache) (b : Branch) (calls : List Call) :
    (c.after (calls.filter (·.isAbout b))).shelf b = (c.after calls).shelf b := by
  rw [shelf_after, shelf_after, List.foldl_filter]
  congr 1
  funext s call
  split
  · rfl
  · next h => exact (Call.shelve_of_not_isAbout (Bool.not_eq_true _ ▸ h) s).symm

/-- What the cache returns to a user is on its shelf. -/
theorem lookup_fst (c : Cache) (b : Branch) (user : String) (t : Token) :
    (c.lookup b (some user) t).1 = if c.settings.enabled then (c.shelf b).entries.find? ⟨user, t.identity⟩ else none := by
  cases he : c.settings.enabled <;> simp [lookup, userFor, he]

/-- A call for nobody finds nothing and changes nothing. -/
theorem Call.run_of_isAnonymous (h : call.isAnonymous = true) (c : Cache) : call.run c = (none, c) := by
  cases call with
  | add b scope t a =>
    obtain rfl : scope = none := of_decide_eq_true h
    simp [run, Cache.add, userFor]
  | lookup b scope t =>
    obtain rfl : scope = none := of_decide_eq_true h
    simp [run, Cache.lookup, userFor]
  | clear => cases h

/-- A cache that is switched off finds nothing, and stays as it was made. -/
theorem Call.run_new (h : settings.enabled = false) (call : Call) : call.run (new settings) = (none, new settings) := by
  have hu : ∀ scope, (new settings).userFor scope = none := fun scope => if_neg (Bool.eq_false_iff.1 h)
  cases call with
  | add b scope t a => rw [run, Cache.add, hu]
  | lookup b scope t => rw [run, Cache.lookup, hu]
  | clear => rfl

theorem after_new (h : settings.enabled = false) (calls : List Call) : (new settings).after calls = new settings := by
  induction calls with
  | nil => rfl
  | cons call calls ih =>
    show ((call.run (new settings)).2).after calls = _
    rw [Call.run_new h]
    exact ih

/-! ## Histories -/

/-- A key counts once. -/
theorem keyCount_append (l : List (Key × Entry)) (k : Key) (e : Entry) :
    keyCount (l ++ [(k, e)]) = if (Table.findIn k l).isSome then keyCount l else keyCount l + 1 := by
  have hinsert : keyCount (l ++ [(k, e)]) = (insert k (l.map Prod.fst).toFinset).card := by
    rw [keyCount]
    congr 1
    ext x
    simp
  cases hk : Table.findIn k l with
  | none =>
    rw [hinsert, Finset.card_insert_of_notMem (by simpa using Table.findIn_eq_none_iff.1 hk)]
    rfl
  | some v =>
    have hmem : k ∈ l.map Prod.fst := List.mem_map_of_mem (f := Prod.fst) (Table.mem_of_findIn hk)
    rw [hinsert, Finset.insert_eq_self.2 (List.mem_toFinset.2 hmem)]
    rfl

/-- A shelf knows the first answer for every key of a history. -/
structure Recalls (l : List (Key × Entry)) (s : Shelf) : Prop where
  finds : ∀ k, s.entries.find? k = Table.findIn k l
  size : s.entries.size = keyCount l

theorem recalls_nil (h : s.entries = Table.empty) : Recalls [] s :=
  ⟨fun k => by rw [h]; rfl, by rw [h]; rfl⟩

/-- One more answer, kept and noted. -/
theorem Recalls.keep (h : Recalls l s) (maxSize : Nat) (k : Key) (e : Entry) :
    Recalls (receive maxSize l (k, e)) (s.keep maxSize k e).1 := by
  have hsize : (s.entries.insertNew k e).size = keyCount (l ++ [(k, e)]) := by
    rw [Table.size_insertNew, Table.contains, h.finds, keyCount_append, h.size]
  unfold Shelf.keep receive
  dsimp only
  rw [hsize]
  split
  · exact recalls_nil rfl
  · refine ⟨fun j => ?_, hsize⟩
    rw [Table.find?_insertNew, Table.findIn_append, h.finds, h.finds, Table.findIn, Table.findIn]
    by_cases hj : j = k
    · subst hj
      rw [if_pos rfl, if_pos rfl]
      cases Table.findIn j l <;> rfl
    · rw [if_neg hj, if_neg (Ne.symm hj), Option.or_none]

/-- One more call, carried out and noted. -/
theorem Recalls.shelve (h : Recalls l s) (he : settings.enabled = true) (call : Call) :
    Recalls (noted settings.maxSize b l call) (call.shelve settings b s) := by
  rcases call.shelve_cases settings b with ⟨user, t, a, rfl, hs⟩ | rfl | ⟨hs, hl⟩
  · rw [hs, noted, if_pos rfl]
    exact h.keep _ _ _
  · exact recalls_nil rfl
  · rw [hl he]
    exact ⟨fun k => by rw [(hs s).1, h.finds], by rw [(hs s).1, h.size]⟩

/-- After any calls a shelf knows the first answer for every key that was given since it was emptied last. -/
theorem recalls_after (he : settings.enabled = true) (b : Branch) (calls : List Call) :
    Recalls (given settings.maxSize b calls) (((new settings).after calls).shelf b) := by
  induction calls using List.reverseRecOn with
  | nil => exact recalls_nil (by cases b <;> rfl)
  | append_singleton calls call ih =>
    rw [after_append, given, List.foldl_append]
    show Recalls _ ((call.run ((new settings).after calls)).2.shelf b)
    rw [(run_eq _ call).2, settings_after]
    exact ih.shelve he call

/-- What is new in a history is the answer that it received. -/
theorem mem_receive {x y : Key × Entry} (h : y ∈ receive maxSize l x) : y ∈ l ∨ y = x := by
  rw [receive] at h
  split at h
  · cases h
  · simpa using h

/-- What a branch was given, it was given by a call for the user and the identity of the key. -/
theorem exists_add_of_mem_given {x : Key × Entry} (h : x ∈ given maxSize b calls) :
    Call.add b (some x.1.user) x.2.token x.2.parents ∈ calls ∧ x.2.token.identity = x.1.identity := by
  induction calls using List.reverseRecOn with
  | nil => cases h
  | append_singleton calls call ih =>
    rw [given, List.foldl_append, List.foldl_cons, List.foldl_nil] at h
    rcases call.shelve_cases ⟨true, maxSize⟩ b with ⟨user, t, a, rfl, -⟩ | rfl | ⟨-, hl⟩
    · rw [noted, if_pos rfl] at h
      rcases mem_receive h with h | rfl
      · exact ⟨List.mem_append_left _ (ih h).1, (ih h).2⟩
      · exact ⟨List.mem_append_right _ List.mem_cons_self, rfl⟩
    · cases h
    · rw [hl rfl] at h
      exact ⟨List.mem_append_left _ (ih h).1, (ih h).2⟩

/-! ## Isolation -/

/-- A shelf that did not overflow has the answer, and has room for it. -/
theorem Shelf.size_le_of_resets (h : (s.keep maxSize k e).1.resets = s.resets) : (s.entries.insertNew k e).size ≤ maxSize := by
  unfold Shelf.keep at h
  dsimp only at h
  split at h
  · exact absurd h (Nat.succ_ne_self _)
  · next hle => exact Nat.le_of_not_lt hle

/-- A shelf that has room for an answer has it. -/
theorem Shelf.keep_of_le (h : (s.entries.insertNew k e).size ≤ maxSize) :
    (s.keep maxSize k e).1 = { s with entries := s.entries.insertNew k e } := by
  unfold Shelf.keep
  dsimp only
  rw [if_neg (Nat.not_lt.2 h)]

/-- Overflows are counted. -/
theorem Call.resets_le_shelve (settings : CacheSettings) (b : Branch) (call : Call) (s : Shelf) :
    s.resets ≤ (call.shelve settings b s).resets := by
  rcases call.shelve_cases settings b with ⟨user, t, a, rfl, hs⟩ | rfl | ⟨hs, -⟩
  · rw [hs]
    unfold Shelf.keep
    dsimp only
    split
    · exact Nat.le_succ _
    · exact Nat.le_refl _
  · exact Nat.le_refl _
  · exact Nat.le_of_eq (hs s).2.symm

theorem resets_le_foldl (settings : CacheSettings) (b : Branch) (calls : List Call) (s : Shelf) :
    s.resets ≤ (calls.foldl (fun s call => call.shelve settings b s) s).resets := by
  induction calls generalizing s with
  | nil => exact Nat.le_refl _
  | cons call calls ih => exact Nat.le_trans (call.resets_le_shelve settings b s) (ih _)

/-- `s` has for a user what `s'` has, and it has as many answers in all as `s'`, or more. -/
structure Shelf.Outweighs (user : String) (s s' : Shelf) : Prop where
  finds : ∀ k : Key, k.user = user → s'.entries.find? k = s.entries.find? k
  size : s'.entries.size ≤ s.entries.size

theorem Shelf.Outweighs.refl (user : String) (s : Shelf) : s.Outweighs user s := ⟨fun _ _ => rfl, Nat.le_refl _⟩

section Outweighs

variable (h : s.Outweighs user s')

include h

/-- Counting does not matter. -/
theorem Shelf.Outweighs.congr (hq : q.entries = s.entries) (hq' : q'.entries = s'.entries) : q.Outweighs user q' :=
  ⟨fun k hk => by rw [hq, hq', h.finds k hk], by rw [hq, hq']; exact h.size⟩

/-- An answer for the user, given to both shelves. The lighter one has room for it if the other one has. -/
theorem Shelf.Outweighs.keep (hk : k.user = user) (hroom : (s.keep maxSize k e).1.resets = s.resets) :
    (s.keep maxSize k e).1.Outweighs user (s'.keep maxSize k e).1 := by
  have hle := Shelf.size_le_of_resets hroom
  have hsize : (s'.entries.insertNew k e).size ≤ (s.entries.insertNew k e).size := by
    have := h.size
    rw [Table.size_insertNew, Table.size_insertNew, Table.contains, Table.contains, h.finds k hk]
    split <;> omega
  rw [Shelf.keep_of_le hle, Shelf.keep_of_le (Nat.le_trans hsize hle)]
  refine ⟨fun j hj => ?_, hsize⟩
  rw [Table.find?_insertNew, Table.find?_insertNew, h.finds k hk, h.finds j hj]

/-- An answer for somebody else, given to the heavier shelf. -/
theorem Shelf.Outweighs.keep_other (hk : k.user ≠ user) (hroom : (s.keep maxSize k e).1.resets = s.resets) :
    (s.keep maxSize k e).1.Outweighs user s' := by
  rw [Shelf.keep_of_le (Shelf.size_le_of_resets hroom)]
  refine ⟨fun j hj => ?_, Nat.le_trans h.size ?_⟩
  · rw [Table.find?_insertNew, if_neg fun hjk : j = k => hk (hjk ▸ hj), h.finds j hj]
  · rw [Table.size_insertNew]
    split <;> omega

/-- A call of the user, made to both. -/
theorem Shelf.Outweighs.shelve (hof : call.isOf user = true) (hroom : (call.shelve settings b s).resets = s.resets) :
    (call.shelve settings b s).Outweighs user (call.shelve settings b s') := by
  rcases call.shelve_cases settings b with ⟨user', t, a, rfl, hs⟩ | rfl | ⟨hs, -⟩
  · rw [hs] at hroom ⊢
    rw [hs]
    exact h.keep (Option.some.inj (of_decide_eq_true hof)) hroom
  · exact ⟨fun _ _ => rfl, Nat.le_refl _⟩
  · exact h.congr (hs s).1 (hs s').1

/-- A call of somebody else, made to the heavier shelf. -/
theorem Shelf.Outweighs.shelve_other (hof : call.isOf user = false)
    (hroom : (call.shelve settings b s).resets = s.resets) : (call.shelve settings b s).Outweighs user s' := by
  rcases call.shelve_cases settings b with ⟨user', t, a, rfl, hs⟩ | rfl | ⟨hs, -⟩
  · rw [hs] at hroom ⊢
    exact h.keep_other (fun hu => of_decide_eq_false hof (congrArg some hu)) hroom
  · cases hof
  · exact h.congr (hs s).1 rfl

/-- Without an overflow, a shelf has for a user what it would have without the calls of others. -/
theorem Shelf.Outweighs.foldl (calls : List Call)
    (hroom : (calls.foldl (fun s call => call.shelve settings b s) s).resets = s.resets) :
    (calls.foldl (fun s call => call.shelve settings b s) s).Outweighs user
      ((calls.filter (·.isOf user)).foldl (fun s call => call.shelve settings b s) s') := by
  induction calls generalizing s s' with
  | nil => exact h
  | cons call calls ih =>
    rw [List.foldl_cons] at hroom ⊢
    have hle := call.resets_le_shelve settings b s
    have hle' := resets_le_foldl settings b calls (call.shelve settings b s)
    cases hof : call.isOf user with
    | true =>
      rw [List.filter_cons_of_pos hof]
      exact ih (h.shelve hof (by omega)) (by omega)
    | false =>
      rw [List.filter_cons_of_neg (Bool.eq_false_iff.1 hof)]
      exact ih (h.shelve_other hof (by omega)) (by omega)

end Outweighs

/-! ## What a lookup returns -/

/-- An emptied cache that is asked and then given an answer has it for every token of the same identity. -/
theorem lookup_of_cleared (c : Cache) (he : c.settings.enabled = true) (hroom : 0 < c.settings.maxSize) (b : Branch)
    (user : String) {t t' : Token} (a : Answer) (hsame : t.same t' = true) :
    (((c.clear.lookup b (some user) t).2.add b (some user) t a).1.lookup b (some user) t').1 = some ⟨t, a⟩ := by
  let calls : List Call := [.lookup b (some user) t, .add b (some user) t a]
  have he' : c.clear.settings.enabled = true := he
  have hempty : (c.clear.shelf b).entries = Table.empty := by cases b <;> rfl
  have hentries : ((c.clear.after calls).shelf b).entries =
      (Table.empty : Table Key Entry).insertNew ⟨user, t.identity⟩ ⟨t, a⟩ := by
    rw [shelf_after, List.foldl_cons, List.foldl_cons, List.foldl_nil, Call.shelve_lookup he', Call.shelve_add he',
      Shelf.keep_of_le]
    · rw [Shelf.entries_count, hempty]
    · rw [Shelf.entries_count, hempty, Table.size_insertNew]
      exact hroom
  have henabled : (c.clear.after calls).settings.enabled = true := by
    rw [settings_after]
    exact he
  show ((c.clear.after calls).lookup b (some user) t').1 = _
  rw [lookup_fst, if_pos henabled, hentries, Table.find?_insertNew, if_pos (by rw [Token.same_iff.1 hsame])]
  rfl

/-- What a cache returns and what can change it. A lookup for a user returns, if the cache is used at all, the first answer for the
identity of the token that the user was given on the branch since that was emptied last, and nothing if there is none; so what it
returns was given by a call for that user, on that branch and with that identity. Without an overflow of the branch, more calls leave
the user with what the calls of the user alone would leave. Calls about the other branch leave a branch as it is. Calls for nobody, and
all calls to a cache that is not used, return nothing and change nothing. -/
theorem lookup_recalls (settings : CacheSettings) (calls : List Call) (b : Branch) (user : String) (t : Token) :
    let c := (new settings).after calls
    (settings.enabled = true →
      (c.lookup b (some user) t).1 = Table.findIn ⟨user, t.identity⟩ (given settings.maxSize b calls)) ∧
    (∀ e, (c.lookup b (some user) t).1 = some e →
      Call.add b (some user) e.token e.parents ∈ calls ∧ e.token.identity = t.identity) ∧
    (∀ more, ((c.after more).shelf b).resets = (c.shelf b).resets →
      ((c.after more).lookup b (some user) t).1 = ((c.after (more.filter (·.isOf user))).lookup b (some user) t).1) ∧
    (∀ more, (c.after (more.filter (·.isAbout b))).shelf b = (c.after more).shelf b) ∧
    (∀ call : Call, settings.enabled = false ∨ call.isAnonymous = true → call.run c = (none, c)) := by
  intro c
  have hsettings : ∀ more, (c.after more).settings = settings := fun more => by rw [settings_after, settings_after]; rfl
  have hrecall (he : settings.enabled = true) :
      (c.lookup b (some user) t).1 = Table.findIn ⟨user, t.identity⟩ (given settings.maxSize b calls) := by
    rw [lookup_fst, if_pos (by rw [← he, ← hsettings []]; rfl), (recalls_after he b calls).finds]
  refine ⟨hrecall, fun e hfound => ?_, fun more hroom => ?_, shelf_after_filter c b, fun call h => ?_⟩
  · cases he : settings.enabled with
    | true =>
      rw [hrecall he] at hfound
      exact exists_add_of_mem_given (Table.mem_of_findIn hfound)
    | false =>
      have hmade : c = new settings := after_new he calls
      have hoff : ¬(new settings).settings.enabled = true := Bool.eq_false_iff.1 he
      rw [hmade, lookup_fst, if_neg hoff] at hfound
      cases hfound
  · rw [shelf_after] at hroom
    have hout := (Shelf.Outweighs.refl user (c.shelf b)).foldl more hroom
    rw [← shelf_after, ← shelf_after] at hout
    rw [lookup_fst, lookup_fst, hsettings, hsettings, hout.finds _ rfl]
  · rcases h with he | hanonymous
    · rw [show c = new settings from after_new he calls]
      exact Call.run_new he call
    · exact Call.run_of_isAnonymous hanonymous c

/-- Two users, one of them without a name, fill a shelf for two answers; a later answer for a key that has one is not kept, and does not
overflow the shelf. The answer for a third user does, so that all users begin anew. -/
theorem lookup_recalls_overflow :
    let a := Token.element "t" "s" "a"
    let p := Token.element "t" "s" "p"
    let full : List Call := [.add .native (some "u") a (some [p]), .add .native (some "") a none, .add .native (some "u") a none]
    let anew : List Call := full ++ [.add .native (some "v") a none, .add .native (some "u") a (some [])]
    (((new ⟨true, 2⟩).after full).lookup .native (some "u") a).1 = some ⟨a, some [p]⟩ ∧
      (((new ⟨true, 2⟩).after anew).lookup .native (some "u") a).1 = some ⟨a, some []⟩ ∧
      (((new ⟨true, 2⟩).after anew).lookup .native (some "") a).1 = none := by
  intro a p full anew
  refine ⟨?_, ?_, ?_⟩
  · rw [(lookup_recalls ⟨true, 2⟩ full .native "u" a).1 rfl]
    decide
  · rw [(lookup_recalls ⟨true, 2⟩ anew .native "u" a).1 rfl]
    decide
  · rw [(lookup_recalls ⟨true, 2⟩ anew .native "" a).1 rfl]
    decide

end Lineage.Cache
