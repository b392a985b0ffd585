import Lineage.Token.Basic
import Mathlib.Data.List.Basic

/-!
# Tokens without repetitions

To leave out what names the same object as a token before is to keep the first token of each object. No object is lost and none is named
twice. Tokens that name each object once are all kept, and more tokens of the same objects make no difference.
-/

namespace Lineage.Token

variable {seen ts us : List Token} {t : Token} {x : Identity}

/-- Some tokens, followed by the first token for each object that others name and they do not. -/
def addNew (seen ts : List Token) : List Token := ts.foldl (fun seen t => if seen.any (·.same t) then seen else seen ++ [t]) seen

theorem distinct_eq_addNew (ts : List Token) : distinct ts = addNew [] ts := rfl

theorem addNew_append (seen ts us : List Token) : addNew seen (ts ++ us) = addNew (addNew seen ts) us := List.foldl_append

theorem any_same_iff : seen.any (·.same t) = true ↔ ∃ s ∈ seen, s.identity = t.identity := by
  simp only [List.any_eq_true, same_iff]

theorem addNew_cons_of_mem (h : ∃ s ∈ seen, s.identity = t.identity) : addNew seen (t :: ts) = addNew seen ts := by
  rw [addNew, List.foldl_cons, if_pos (any_same_iff.2 h), addNew]

theorem addNew_cons_of_not_mem (h : ¬∃ s ∈ seen, s.identity = t.identity) : addNew seen (t :: ts) = addNew (seen ++ [t]) ts := by
  rw [addNew, List.foldl_cons, if_neg (mt any_same_iff.1 h), addNew]

/-- What is named before or named anew is named in the end. -/
theorem exists_mem_addNew_iff : (∃ t ∈ addNew seen ts, t.identity = x) ↔ (∃ t ∈ seen, t.identity = x) ∨ ∃ t ∈ ts, t.identity = x := by
  induction ts generalizing seen with
  | nil => simp [addNew]
  | cons a ts ih =>
    by_cases ha : ∃ s ∈ seen, s.identity = a.identity
    · rw [addNew_cons_of_mem ha, ih, List.exists_mem_cons_iff]
      refine or_congr_right' fun hx => (or_iff_right fun hax => hx ?_).symm
      obtain ⟨s, hs, hsa⟩ := ha
      exact ⟨s, hs, hsa.trans hax⟩
    · rw [addNew_cons_of_not_mem ha, ih, List.exists_mem_cons_iff, ← or_assoc]
      simp [or_and_right, exists_or]

/-- Leaving out repetitions leaves out no object. -/
theorem exists_mem_distinct_iff : (∃ t ∈ distinct ts, t.identity = x) ↔ ∃ t ∈ ts, t.identity = x := by
  rw [distinct_eq_addNew, exists_mem_addNew_iff]
  simp

/-- A token can be put after others that name each object once, if it names another one. -/
theorem nodup_append_singleton (h : (seen.map identity).Nodup) (ht : ¬∃ s ∈ seen, s.identity = t.identity) :
    ((seen ++ [t]).map identity).Nodup := by
  rw [List.map_append]
  refine List.nodup_append.2 ⟨h, by simp, fun x hx y hy hxy => ht ?_⟩
  obtain ⟨s, hs, rfl⟩ := List.mem_map.1 hx
  exact ⟨s, hs, hxy.trans (List.mem_singleton.1 hy)⟩

theorem nodup_addNew (h : (seen.map identity).Nodup) (ts : List Token) : ((addNew seen ts).map identity).Nodup := by
  induction ts generalizing seen with
  | nil => exact h
  | cons a ts ih =>
    by_cases ha : ∃ s ∈ seen, s.identity = a.identity
    · rw [addNew_cons_of_mem ha]
      exact ih h
    · rw [addNew_cons_of_not_mem ha]
      exact ih (nodup_append_singleton h ha)

/-- What is left names each object once. -/
theorem nodup_distinct (ts : List Token) : ((distinct ts).map identity).Nodup := by
  rw [distinct_eq_addNew]
  refine nodup_addNew ?_ ts
  exact List.nodup_nil

/-- Tokens of objects that were named before are not added. -/
theorem addNew_eq_self (h : ∀ u ∈ us, ∃ s ∈ seen, s.identity = u.identity) : addNew seen us = seen := by
  induction us with
  | nil => rfl
  | cons u us ih =>
    rw [addNew_cons_of_mem (h u List.mem_cons_self)]
    exact ih fun v hv => h v (List.mem_cons_of_mem u hv)

/-- More tokens of the same objects make no difference. -/
theorem distinct_append (h : ∀ u ∈ us, ∃ t ∈ ts, t.identity = u.identity) : distinct (ts ++ us) = distinct ts := by
  rw [distinct_eq_addNew, addNew_append, ← distinct_eq_addNew, addNew_eq_self]
  exact fun u hu => exists_mem_distinct_iff.2 (h u hu)

/-- Tokens that name each object once, and none that was named before, are all added. -/
theorem addNew_eq_append (h : ((seen ++ ts).map identity).Nodup) : addNew seen ts = seen ++ ts := by
  induction ts generalizing seen with
  | nil => exact (List.append_nil seen).symm
  | cons a ts ih =>
    have ha : ¬∃ s ∈ seen, s.identity = a.identity := by
      rintro ⟨s, hs, hsa⟩
      rw [List.map_append] at h
      exact (List.nodup_append.1 h).2.2 _ (List.mem_map_of_mem hs) _ (List.mem_map_of_mem List.mem_cons_self) hsa
    rw [addNew_cons_of_not_mem ha, List.append_cons seen a ts]
    rw [List.append_cons seen a ts] at h
    exact ih h

/-- Tokens that name each object once are left as they are. -/
theorem distinct_eq_self (h : (ts.map identity).Nodup) : distinct ts = ts := by
  rw [distinct_eq_addNew]
  exact addNew_eq_append h

end Lineage.Token
