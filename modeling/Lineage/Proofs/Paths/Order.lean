import Lineage.Proofs.Paths.Maximal
import Mathlib.Data.List.Chain
import Mathlib.Data.Set.Card

/-!
# Full paths and their order

A full path starts at an identity, goes on to a parent with every step, has nothing twice, and ends where every parent is on it already.
This says which paths there are, without saying how they are found: they are the maximal paths, and the search that extends a path by one
new parent after the other finds all of them (`maximal_iff_fullPath`). Two paths are in order if the first of them goes on to a parent
that is named earlier where they part. `pathsFrom` lists paths in that order, so it lists none of them twice.
-/

namespace Lineage.Ancestry

/-- A path that is as long as it can be: each step leads to a parent, nothing is on it twice, and no parent of its end is new. -/
structure FullPath (f : Ancestry) (x : Identity) (path : List Identity) : Prop where
  starts : path.head? = some x
  steps : path.IsChain (f.Parent .both)
  nodup : path.Nodup
  ended : ∀ z, path.getLast? = some z → ∀ y, f.Parent .both z y → y ∈ path

/-- The position at which a parent is named first, where native answers come before auxiliary ones, and those before hooking ones. -/
def position (f : Ancestry) (x y : Identity) : Nat := ((f.parents .both x).map Token.identity).idxOf y

/-- One path is before another: where they part, it goes on to a parent that is named earlier. -/
inductive Precedes (f : Ancestry) : List Identity → List Identity → Prop where
  | here {x y z : Identity} {path path' : List Identity} (h : f.position x y < f.position x z) :
      Precedes f (x :: y :: path) (x :: z :: path')
  | there {x : Identity} {path path' : List Identity} (h : Precedes f path path') : Precedes f (x :: path) (x :: path')

variable {f : Ancestry} {before path path' : List Identity} {paths : List (List Identity)} {x y z : Identity} {n : Nat}

/-! ## The maximal paths are the full ones -/

/-- A maximal path, said without the search: what is before its start counts as part of it where it ends, and it does not return there. -/
theorem Maximal.full (h : f.Maximal before x path) :
    path.head? = some x ∧ path.IsChain (f.Parent .both) ∧ path.Nodup ∧ (∀ z ∈ path.tail, z ∉ before) ∧
      ∀ z, path.getLast? = some z → ∀ y, f.Parent .both z y → y ∈ path ++ before := by
  induction h with
  | @stop before x hstop =>
    refine ⟨rfl, List.isChain_singleton x, List.nodup_singleton x, fun _ hz => absurd hz List.not_mem_nil, fun z hz y hy => ?_⟩
    cases hz
    exact hstop y hy
  | @step before path x y hxy hy hpath ih =>
    obtain ⟨hhead, hsteps, hnodup, hapart, hended⟩ := ih
    obtain ⟨rest, rfl⟩ := List.head?_eq_some_iff.1 hhead
    have hnew : ∀ z ∈ y :: rest, z ∉ x :: before := by
      intro z hz
      rcases List.mem_cons.1 hz with rfl | hz
      · exact hy
      · exact hapart z hz
    refine ⟨rfl, List.isChain_cons_cons.2 ⟨hxy, hsteps⟩, List.nodup_cons.2 ⟨?_, hnodup⟩, fun z hz hmem => ?_, fun z hz w hw => ?_⟩
    · exact fun hx => hnew x hx List.mem_cons_self
    · exact hnew z hz (List.mem_cons_of_mem x hmem)
    · rw [List.getLast?_cons_cons] at hz
      exact List.perm_middle.mem_iff.1 (hended z hz w hw)

/-- The other way around: what is so is found, one parent after the other. -/
theorem Maximal.of_full (hhead : path.head? = some x) (hsteps : path.IsChain (f.Parent .both)) (hnodup : path.Nodup)
    (hapart : ∀ z ∈ path.tail, z ∉ before)
    (hended : ∀ z, path.getLast? = some z → ∀ y, f.Parent .both z y → y ∈ path ++ before) : f.Maximal before x path := by
  induction path generalizing before x with
  | nil => cases hhead
  | cons a rest ih =>
    obtain rfl : a = x := Option.some.inj hhead
    cases rest with
    | nil => exact Maximal.stop (hended a rfl)
    | cons b rest =>
      obtain ⟨hxb, hsteps⟩ := List.isChain_cons_cons.1 hsteps
      obtain ⟨hx, hnodup'⟩ := List.nodup_cons.1 hnodup
      have hnew : ∀ z ∈ b :: rest, z ∉ a :: before := by
        intro z hz hmem
        rcases List.mem_cons.1 hmem with rfl | hmem
        · exact hx hz
        · exact hapart z hz hmem
      refine Maximal.step hxb (hnew b List.mem_cons_self) (ih rfl hsteps hnodup' ?_ fun z hz w hw => ?_)
      · exact fun z hz => hnew z (List.mem_cons_of_mem b hz)
      · exact List.perm_middle.mem_iff.2 (hended z (List.getLast?_cons_cons.trans hz) w hw)

/-- The maximal paths from an identity are its full paths. -/
theorem maximal_iff_fullPath : f.Maximal [] x path ↔ f.FullPath x path := by
  constructor
  · intro h
    obtain ⟨hhead, hsteps, hnodup, -, hended⟩ := h.full
    exact ⟨hhead, hsteps, hnodup, by simpa using hended⟩
  · intro h
    exact Maximal.of_full h.starts h.steps h.nodup (fun _ _ => List.not_mem_nil) (by simpa using h.ended)

/-! ## The order of paths -/

/-- No path is before itself. -/
theorem Precedes.ne (h : f.Precedes path path') : path ≠ path' := by
  induction h with
  | here h =>
    intro heq
    cases heq
    exact Nat.lt_irrefl _ h
  | there _ ih => exact fun heq => ih (List.cons.inj heq).2

/-- The parents of an identity stand in the order of the positions at which they are named first. -/
theorem pairwise_parentIds (f : Ancestry) (x : Identity) :
    (f.parentIds x).Pairwise fun y z => f.position x y < f.position x z := by
  unfold parentIds position
  generalize f.parents .both x = ts
  induction ts using List.reverseRecOn with
  | nil => exact List.Pairwise.nil
  | append_singleton ts t ih =>
    have hadded : ∀ y ∈ adding [] ts, y ∈ ts.map Token.identity := by
      intro y hy
      obtain hnone | ⟨u, hu, rfl⟩ := mem_adding_iff.1 hy
      · cases hnone
      · exact List.mem_map_of_mem hu
    -- what was there already has the position that it had
    have hold : (adding [] ts).Pairwise fun y z =>
        ((ts ++ [t]).map Token.identity).idxOf y < ((ts ++ [t]).map Token.identity).idxOf z := by
      refine ih.imp_of_mem fun {y z} hy hz hlt => ?_
      rwa [List.map_append, List.idxOf_append_of_mem (hadded y hy), List.idxOf_append_of_mem (hadded z hz)]
    rw [adding_append, adding_cons]
    split
    · exact hold
    · next hnew =>
      refine List.pairwise_append.2 ⟨hold, List.pairwise_singleton _ _, fun y hy z hz => ?_⟩
      rw [List.mem_singleton.1 hz]
      have hlast : t.identity ∉ ts.map Token.identity := by
        intro ht
        obtain ⟨u, hu, hut⟩ := List.mem_map.1 ht
        exact hnew (mem_adding_iff.2 (Or.inr ⟨u, hu, hut⟩))
      rw [List.map_append, List.idxOf_append_of_mem (hadded y hy), List.idxOf_append_of_notMem hlast]
      exact Nat.lt_of_lt_of_le (List.idxOf_lt_length_iff.2 (hadded y hy)) (Nat.le_add_right _ _)

/-- What is gathered is in order if every list is, and the lists are. -/
theorem pairwise_gathered {α β : Type} {list : α → Option (List β)} {R : β → β → Prop} {as : List α} {bs : List β}
    (h : gathered list as = some bs) (hlist : ∀ a l, list a = some l → l.Pairwise R)
    (has : as.Pairwise fun a a' => ∀ l l', list a = some l → list a' = some l' → ∀ b ∈ l, ∀ b' ∈ l', R b b') : bs.Pairwise R := by
  induction as generalizing bs with
  | nil =>
    cases h
    exact List.Pairwise.nil
  | cons a as ih =>
    obtain ⟨l, hl, h⟩ := Option.bind_eq_some_iff.1 h
    obtain ⟨rest, hrest, rfl⟩ := Option.map_eq_some_iff.1 h
    obtain ⟨ha, has⟩ := List.pairwise_cons.1 has
    refine List.pairwise_append.2 ⟨hlist a l hl, ih hrest has, fun b hb b' hb' => ?_⟩
    obtain ⟨a', ha', l', hl', hb'⟩ := (mem_gathered hrest b').1 hb'
    exact ha a' ha' l l' hl hl' b hb b' hb'

/-- The maximal paths are listed in order. -/
theorem pairwise_pathsFrom (h : f.pathsFrom n before x = some paths) : paths.Pairwise f.Precedes := by
  induction n generalizing before x paths with
  | zero => cases h
  | succ n ih =>
    rw [pathsFrom] at h
    split at h
    · cases h
      exact List.pairwise_singleton _ _
    · obtain ⟨rest, hrest, rfl⟩ := Option.map_eq_some_iff.1 h
      refine List.pairwise_map.2 (pairwise_gathered hrest (fun y l hl => (ih hl).imp Precedes.there) ?_)
      -- paths through two parents part there
      refine ((f.pairwise_parentIds x).filter _).imp fun {y z} hlt l l' hl hl' path hpath path' hpath' => ?_
      obtain ⟨path, rfl⟩ := List.head?_eq_some_iff.1 ((mem_pathsFrom_iff hl).1 hpath).full.1
      obtain ⟨path', rfl⟩ := List.head?_eq_some_iff.1 ((mem_pathsFrom_iff hl').1 hpath').full.1
      exact Precedes.here hlt

/-- What is in order has nothing twice. -/
theorem nodup_of_precedes (h : paths.Pairwise f.Precedes) : paths.Nodup := h.imp Precedes.ne

/-! ## Finitely many ancestors -/

/-- What is reached, as a list within which all paths stay. -/
theorem exists_within (hfinite : {y | f.Reaches .both x y}.Finite) :
    ∃ within : List Identity, x ∈ within ∧ (∀ y ∈ within, ∀ z, f.Parent .both y z → z ∈ within) ∧
      within.length = {y | f.Reaches .both x y}.ncard := by
  have hmem : ∀ y, y ∈ hfinite.toFinset.toList ↔ f.Reaches .both x y := fun y => by
    rw [Finset.mem_toList, Set.Finite.mem_toFinset]
    exact Iff.rfl
  refine ⟨hfinite.toFinset.toList, (hmem x).2 (Reaches.refl x), fun y hy z hyz => ?_, ?_⟩
  · exact (hmem z).2 (((hmem y).1 hy).trans hyz.above.reaches)
  · rw [Finset.length_toList, Set.ncard_eq_toFinset_card _ hfinite]

/-- What is reached is finite if it stays within a list. -/
theorem finite_of_within {within : List Identity} (hx : x ∈ within)
    (hwithin : ∀ y ∈ within, ∀ t ∈ f.parents .both y, t.identity ∈ within) :
    {y | f.Reaches .both x y}.Finite ∧ {y | f.Reaches .both x y}.ncard ≤ within.length := by
  have hsubset : {y | f.Reaches .both x y} ⊆ (within.toFinset : Set Identity) := by
    intro y hy
    rw [Finset.mem_coe, List.mem_toFinset]
    exact mem_of_reaches hwithin hx hy
  refine ⟨(Finset.finite_toSet _).subset hsubset, (Set.ncard_le_ncard hsubset (Finset.finite_toSet _)).trans ?_⟩
  rw [Set.ncard_coe_finset]
  exact within.toFinset_card_le

end Lineage.Ancestry
