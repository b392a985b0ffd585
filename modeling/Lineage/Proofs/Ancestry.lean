import Lineage.Graph.Basic
import Mathlib.Logic.Relation

/-!
# Ancestries: chains of parents and their lengths

An ancestry says of every identity what each category of source answers about it. It is the fixed truth that sources are measured
against, and it is itself a source: one that never fails. Under a search, an identity has the parents that the branches of the search
name; a chain of `n` steps leads from an identity to one of its ancestors, and the distance of an ancestor is the length of the
shortest chain to it.
-/

namespace Lineage

/-- What is answered about every identity, category by category. -/
def Ancestry : Type := Category → Identity → Answer

namespace Ancestry

/-- An ancestry answers as it is, and never fails. -/
instance : Sources Ancestry := ⟨fun category t f => (.ok (f category t.identity), f)⟩

/-- The answer on a branch: the native one, or the auxiliary and the hooking one merged. -/
def onBranch (f : Ancestry) : Branch → Identity → Answer
  | .native, x => f .native x
  | .hooked, x => (f .auxiliary x).merge (f .hooking x)

/-- The parents that a search finds for an identity, branch by branch and in the order of the answers. -/
def parents (f : Ancestry) (search : Search) (x : Identity) : List Token :=
  search.branches.flatMap fun b => (f.onBranch b x).getD []

/-- `y` is a parent of `x` under a search. -/
def Parent (f : Ancestry) (search : Search) (x y : Identity) : Prop := ∃ t ∈ f.parents search x, t.identity = y

/-- A chain of `n` steps leads from `x` to `y`, each step to a parent. -/
inductive Chain (f : Ancestry) (search : Search) : Nat → Identity → Identity → Prop where
  | refl (x : Identity) : Chain f search 0 x x
  | snoc {n : Nat} {x y z : Identity} : Chain f search n x y → f.Parent search y z → Chain f search (n + 1) x z

/-- `y` is `x` or one of its ancestors. -/
def Reaches (f : Ancestry) (search : Search) (x y : Identity) : Prop := ∃ n, f.Chain search n x y

/-- `y` is a proper ancestor of `x`. -/
def Above (f : Ancestry) (search : Search) (x y : Identity) : Prop := ∃ n, f.Chain search (n + 1) x y

/-- The shortest chain from `x` to `y` has `n` steps. -/
def Distance (f : Ancestry) (search : Search) (n : Nat) (x y : Identity) : Prop :=
  f.Chain search n x y ∧ ∀ m, f.Chain search m x y → n ≤ m

/-- Nothing is its own proper ancestor. -/
def Acyclic (f : Ancestry) (search : Search) : Prop := ∀ x, ¬f.Above search x x

variable {f : Ancestry} {search : Search} {m n : Nat} {x y z : Identity}

/-- A parent under a search is named on one of its branches. -/
theorem parent_iff : f.Parent search x y ↔ ∃ b ∈ search.branches, ∃ t ∈ (f.onBranch b x).getD [], t.identity = y := by
  simp only [Parent, parents, List.mem_flatMap]
  constructor
  · rintro ⟨t, ⟨b, hb, ht⟩, hy⟩
    exact ⟨b, hb, t, ht, hy⟩
  · rintro ⟨b, hb, t, ht, hy⟩
    exact ⟨t, ⟨b, hb, ht⟩, hy⟩

/-- Under the search for both, a parent is one of any category. -/
theorem parent_both_iff : f.Parent .both x y ↔ ∃ category, ∃ t ∈ (f category x).getD [], t.identity = y := by
  simp only [Parent, parents, Search.branches, Search.includesNative, Search.includesHooked, if_true, onBranch,
    List.singleton_append, List.flatMap_cons, List.flatMap_nil, List.append_nil, Answer.getD_merge, List.mem_append]
  constructor
  · rintro ⟨t, h | h | h, hy⟩
    · exact ⟨.native, t, h, hy⟩
    · exact ⟨.auxiliary, t, h, hy⟩
    · exact ⟨.hooking, t, h, hy⟩
  · rintro ⟨category, t, h, hy⟩
    cases category with
    | native => exact ⟨t, Or.inl h, hy⟩
    | auxiliary => exact ⟨t, Or.inr (Or.inl h), hy⟩
    | hooking => exact ⟨t, Or.inr (Or.inr h), hy⟩

/-! ## Chains -/

/-- A step is a chain of one step. -/
theorem Parent.chain (h : f.Parent search x y) : f.Chain search 1 x y := Chain.snoc (Chain.refl x) h

/-- A chain of no steps leads nowhere else. -/
theorem Chain.eq_of_zero (h : f.Chain search 0 x y) : y = x := by
  cases h
  rfl

/-- A chain that is not empty ends with a step. -/
theorem Chain.last (h : f.Chain search (n + 1) x z) : ∃ y, f.Chain search n x y ∧ f.Parent search y z := by
  cases h with
  | snoc hc hp => exact ⟨_, hc, hp⟩

/-- Chains compose, and their lengths add up. -/
theorem Chain.trans (h : f.Chain search m x y) (h' : f.Chain search n y z) : f.Chain search (m + n) x z := by
  induction h' with
  | refl => exact h
  | snoc _ hp ih => exact Chain.snoc (ih h) hp

/-- A chain that is not empty begins with a step. -/
theorem Chain.first (h : f.Chain search (n + 1) x z) : ∃ y, f.Parent search x y ∧ f.Chain search n y z := by
  induction n generalizing z with
  | zero =>
    obtain ⟨y, hc, hp⟩ := h.last
    rw [hc.eq_of_zero] at hp
    exact ⟨z, hp, Chain.refl z⟩
  | succ n ih =>
    obtain ⟨y, hc, hp⟩ := h.last
    obtain ⟨w, hw, hc⟩ := ih hc
    exact ⟨w, hw, Chain.snoc hc hp⟩

theorem Reaches.refl (x : Identity) : f.Reaches search x x := ⟨0, Chain.refl x⟩

theorem Reaches.trans (h : f.Reaches search x y) (h' : f.Reaches search y z) : f.Reaches search x z := by
  obtain ⟨m, h⟩ := h
  obtain ⟨n, h'⟩ := h'
  exact ⟨m + n, h.trans h'⟩

/-- A proper ancestor is reached. -/
theorem Above.reaches (h : f.Above search x y) : f.Reaches search x y := by
  obtain ⟨n, h⟩ := h
  exact ⟨n + 1, h⟩

/-- A parent is a proper ancestor. -/
theorem Parent.above (h : f.Parent search x y) : f.Above search x y := ⟨0, h.chain⟩

/-- What is reached from a proper ancestor is a proper ancestor. -/
theorem Above.trans_reaches (h : f.Above search x y) (h' : f.Reaches search y z) : f.Above search x z := by
  obtain ⟨m, h⟩ := h
  obtain ⟨n, h'⟩ := h'
  refine ⟨m + n, ?_⟩
  rw [show m + n + 1 = m + 1 + n by omega]
  exact h.trans h'

/-- The proper ancestors of what is reached are proper ancestors. -/
theorem Reaches.trans_above (h : f.Reaches search x y) (h' : f.Above search y z) : f.Above search x z := by
  obtain ⟨m, h⟩ := h
  obtain ⟨n, h'⟩ := h'
  exact ⟨m + n, h.trans h'⟩

theorem Above.trans (h : f.Above search x y) (h' : f.Above search y z) : f.Above search x z :=
  h.trans_reaches h'.reaches

/-- What is reached is the identity itself or a proper ancestor. -/
theorem Reaches.eq_or_above (h : f.Reaches search x y) : y = x ∨ f.Above search x y := by
  obtain ⟨n, h⟩ := h
  cases n with
  | zero => exact Or.inl h.eq_of_zero
  | succ n => exact Or.inr ⟨n, h⟩

/-- A proper ancestor is reached from a parent. -/
theorem Above.first (h : f.Above search x z) : ∃ y, f.Parent search x y ∧ f.Reaches search y z := by
  obtain ⟨n, h⟩ := h
  obtain ⟨y, hp, hc⟩ := h.first
  exact ⟨y, hp, n, hc⟩

/-- One step to a parent after the other leads to a proper ancestor. -/
theorem above_of_transGen (h : Relation.TransGen (f.Parent search) x y) : f.Above search x y := by
  induction h with
  | single hp => exact hp.above
  | tail _ hp ih => exact ih.trans hp.above

/-- What is reached stays within a list that has the parents of all that is in it. -/
theorem mem_of_reaches {within : List Identity} (hwithin : ∀ y ∈ within, ∀ t ∈ f.parents search y, t.identity ∈ within)
    (hx : x ∈ within) (h : f.Reaches search x y) : y ∈ within := by
  obtain ⟨n, h⟩ := h
  induction h with
  | refl => exact hx
  | snoc _ hp ih =>
    obtain ⟨t, ht, rfl⟩ := hp
    exact hwithin _ (ih hx) t ht

/-- Without cycles, one of finitely many identities has none of the others above it. -/
theorem Acyclic.exists_highest (h : f.Acyclic search) {xs : List Identity} (hne : xs ≠ []) :
    ∃ x ∈ xs, ∀ y ∈ xs, ¬f.Above search x y := by
  induction xs with
  | nil => exact absurd rfl hne
  | cons a xs ih =>
    by_cases hxs : xs = []
    · subst hxs
      refine ⟨a, List.mem_cons_self, fun y hy => ?_⟩
      rw [List.mem_singleton.1 hy]
      exact h a
    · obtain ⟨m, hm, hmax⟩ := ih hxs
      by_cases ha : f.Above search m a
      · refine ⟨a, List.mem_cons_self, fun y hy hay => ?_⟩
        rcases List.mem_cons.1 hy with rfl | hy
        · exact h y hay
        · exact hmax y hy (ha.trans hay)
      · refine ⟨m, List.mem_cons_of_mem a hm, fun y hy => ?_⟩
        rcases List.mem_cons.1 hy with rfl | hy
        · exact ha
        · exact hmax y hy

/-- What decreases with every step to a parent rules cycles out. -/
theorem acyclic_of_rank (rank : Identity → Nat) (h : ∀ x y, f.Parent search x y → rank y < rank x) : f.Acyclic search := by
  have hlt : ∀ n x y, f.Chain search (n + 1) x y → rank y < rank x := by
    intro n
    induction n with
    | zero =>
      intro x y hc
      obtain ⟨z, hz, hp⟩ := hc.last
      rw [hz.eq_of_zero] at hp
      exact h x y hp
    | succ n ih =>
      intro x y hc
      obtain ⟨z, hz, hp⟩ := hc.last
      exact Nat.lt_trans (h z y hp) (ih x z hz)
  rintro x ⟨n, hx⟩
  exact Nat.lt_irrefl _ (hlt n x x hx)

/-! ## Ancestries that differ in what they say of one object -/

/-- Where two ancestries answer alike category by category, they answer alike on every branch. -/
theorem onBranch_congr {f₀ : Ancestry} (h : ∀ category, f₀ category x = f category x) (b : Branch) :
    f₀.onBranch b x = f.onBranch b x := by
  cases b with
  | native => exact h .native
  | hooked => rw [onBranch, onBranch, h .auxiliary, h .hooking]

/-- What is said of an object that is not reached does not matter for what is reached. -/
theorem reaches_of_off {f₀ : Ancestry} (hoff : ∀ category y, y ≠ x → f₀ category y = f category y) (hnot : ¬f.Reaches search z x)
    (hy : f₀.Reaches search z y) : f.Reaches search z y := by
  obtain ⟨n, hy⟩ := hy
  induction n generalizing y with
  | zero =>
    rw [hy.eq_of_zero]
    exact Reaches.refl z
  | succ n ih =>
    obtain ⟨w, hw, hwy⟩ := hy.last
    have hw := ih hw
    obtain ⟨b, hb, t, ht, rfl⟩ := parent_iff.1 hwy
    rw [onBranch_congr fun category => hoff category w fun hwx => hnot (hwx ▸ hw)] at ht
    exact hw.trans (parent_iff.2 ⟨b, hb, t, ht, rfl⟩).above.reaches

/-! ## Distances -/

/-- An identity has one distance at most. -/
theorem Distance.unique (h : f.Distance search m x y) (h' : f.Distance search n x y) : m = n :=
  Nat.le_antisymm (h.2 n h'.1) (h'.2 m h.1)

end Ancestry
end Lineage
