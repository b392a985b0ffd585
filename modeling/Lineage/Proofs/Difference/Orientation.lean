import Lineage.Proofs.Difference.Chains
import Lineage.Proofs.Graph.Calls
import Lineage.Proofs.Sources

/-!
# The difference taken the other way round

Whichever of two graphs comes first, they part at the same objects. An object where only one graph leaves the other has one and the same
place in either order, and it counts in both orders or in neither, since what covers a place is told from the objects of the others. An
object where each graph leaves the other has two places, and that of the first graph is taken. It is for such an object only that the order
matters, to whether it counts and to the parents that are shown anew. It is on the ways down from two tops that both graphs have.
-/

namespace Lineage

open LevelGraph

namespace Place

variable {p q r : Place} {x : Identity}

/-- Places of one object are the same as the same others. -/
theorem same_eq_of_names (hp : p.Names x) (hq : q.Names x) (r : Place) : p.same r = q.same r := by
  rw [Bool.eq_iff_iff, same_iff, same_iff]
  constructor
  · rintro ⟨y, hpy, hr⟩
    exact ⟨x, hq, hp.unique hpy ▸ hr⟩
  · rintro ⟨y, hqy, hr⟩
    exact ⟨x, hp, hq.unique hqy ▸ hr⟩

/-- Places of one object cover the same others. -/
theorem covers_eq_of_names (hp : p.Names x) (hq : q.Names x) (r : Place) : p.covers r = q.covers r := by
  simp only [covers, same_eq_of_names hp hq]

end Place

namespace Difference

variable {before after left right : LevelGraph} {p q : Place} {x : Identity} {L R : List Nat} {i j : Nat}

/-! ## One place for each object -/

/-- Each of two graphs leaves the other at an object. -/
def PartsBoth (before after : LevelGraph) (x : Identity) : Prop :=
  (∃ p, Parts before after p ∧ p.Names x) ∧ ∃ p, Parts after before p ∧ p.Names x

theorem PartsBoth.symm (h : PartsBoth before after x) : PartsBoth after before x := ⟨h.2, h.1⟩

/-- One graph leaves the other at one node for an object at most. -/
theorem Parts.eq_of_names (hl : left.Tree) (hr : right.Tree) (h : Parts left right p) (h' : Parts left right q) (hp : p.Names x)
    (hq : q.Names x) : p = q := by
  obtain ⟨hg, -⟩ := h.exists_split hr
  obtain ⟨hg', -⟩ := h'.exists_split hr
  obtain ⟨g, i⟩ := p
  obtain ⟨g', j⟩ := q
  obtain rfl : g = left := hg
  obtain rfl : g' = g := hg'
  obtain ⟨t, ht, htx⟩ := hp
  obtain ⟨u, hu, hux⟩ := hq
  rw [hl.distinct i j t u ht hu (htx.trans hux.symm)]

/-- The places are where the first graph leaves the second, and where the second leaves the first at an object where the first does not
leave it. -/
theorem mem_places_iff (hb : before.Tree) (ha : after.Tree) :
    p ∈ places before after ↔ Parts before after p ∨ Parts after before p ∧ ∀ q, Parts before after q → q.same p = false := by
  refine ⟨parts_or_new_of_mem_places, ?_⟩
  rintro (h | ⟨h, hnew⟩)
  · obtain ⟨t, ht⟩ := h.exists_token hb ha
    obtain ⟨r, hr, hrx⟩ := exists_mem_places (Or.inl h) ⟨t, ht, rfl⟩
    rcases parts_or_new_of_mem_places hr with hparts | ⟨-, hrnew⟩
    · rwa [h.eq_of_names hb ha hparts ⟨t, ht, rfl⟩ hrx]
    · exact absurd hrx (Place.not_names_of_same (hrnew p h) ⟨t, ht, rfl⟩)
  · obtain ⟨t, ht⟩ := h.exists_token ha hb
    obtain ⟨r, hr, hrx⟩ := exists_mem_places (Or.inr h) ⟨t, ht, rfl⟩
    rcases parts_or_new_of_mem_places hr with hparts | ⟨hparts, -⟩
    · exact absurd ⟨t, ht, rfl⟩ (Place.not_names_of_same (hnew r hparts) hrx)
    · rwa [h.eq_of_names ha hb hparts ⟨t, ht, rfl⟩ hrx]

/-! ## In the other order -/

/-- In either order the places are of the same objects. -/
theorem exists_place_swap (h : ∃ p ∈ places before after, p.Names x) : ∃ p ∈ places after before, p.Names x := by
  obtain ⟨p, hp, hx⟩ := h
  exact exists_mem_places (parts_of_mem_places hp).symm hx

/-- In either order a place is covered by others or it is not. -/
theorem not_covered_swap (hb : before.Tree) (ha : after.Tree) (h : ∀ q ∈ places before after, q.covers p = true → q.same p = true) :
    ∀ q ∈ places after before, q.covers p = true → q.same p = true := by
  intro q hq hc
  obtain ⟨t, ht⟩ := (tree_of_mem_places ha hb hq).2
  obtain ⟨r, hr, hrx⟩ := exists_place_swap ⟨q, hq, t, ht, rfl⟩
  rw [Place.covers_eq_of_names ⟨t, ht, rfl⟩ hrx] at hc
  rw [Place.same_eq_of_names ⟨t, ht, rfl⟩ hrx]
  exact h r hr hc

/-- Where only one graph leaves the other, there is a place in either order. -/
theorem mem_places_swap (hb : before.Tree) (ha : after.Tree) (hx : p.Names x) (hnot : ¬PartsBoth before after x)
    (h : p ∈ places before after) : p ∈ places after before := by
  rw [mem_places_iff ha hb]
  rcases parts_of_mem_places h with h | h
  · refine Or.inr ⟨h, fun q hq => Bool.eq_false_iff.2 fun hs => hnot ⟨⟨p, h, hx⟩, q, hq, ?_⟩⟩
    obtain ⟨y, hqy, hpy⟩ := Place.same_iff.1 hs
    rwa [hx.unique hpy]
  · exact Or.inl h

/-- A place where only one graph leaves the other counts in either order. -/
theorem mem_candidates_swap (hb : before.Tree) (ha : after.Tree) (hx : p.Names x) (hnot : ¬PartsBoth before after x)
    (h : p ∈ candidates before after) : p ∈ candidates after before := by
  obtain ⟨hp, hcov⟩ := mem_uncovered_iff.1 h
  exact mem_uncovered_iff.2 ⟨mem_places_swap hb ha hx hnot hp, not_covered_swap hb ha hcov⟩

/-- Where each graph leaves the other, a place counts if the first graph leaves the second there and no other place covers it. -/
theorem mem_candidates_iff_of_both (hb : before.Tree) (ha : after.Tree) (hx : p.Names x) (hboth : PartsBoth before after x) :
    p ∈ candidates before after ↔
      Parts before after p ∧ ∀ q ∈ places before after, q.covers p = true → q.same p = true := by
  rw [candidates, mem_uncovered_iff, mem_places_iff hb ha]
  refine and_congr_left fun _ => or_iff_left fun hnew => ?_
  obtain ⟨⟨q, hq, hqx⟩, -⟩ := hboth
  exact Place.not_names_of_same (hnew.2 q hq) hqx hx

/-! ## Where each graph leaves the other -/

/-- Where each of two ways leaves the other, they go to different objects. -/
theorem not_matches_of_partedFrom (h : partedFrom left right L R = some i) (h' : partedFrom right left R L = some j) :
    ¬Matches left right i j := by
  obtain ⟨pre, pre', post, post', rfl, rfl, hpre, hparted, hne⟩ := exists_shared left right L R
  rw [h] at hparted
  refine hne i hparted.symm j ?_
  rw [partedFrom_append (matches_flip hpre)] at h'
  cases post' with
  | nil => cases h'
  | cons j' post' =>
    cases post with
    | nil => cases hparted
    | cons i' post =>
      rw [partedFrom] at h'
      exact (if_neg fun hs => hne i' rfl j' rfl (Place.same_comm.1 hs)).symm.trans h'

/-- Two graphs have at most one top in common. -/
def OneShared (before after : LevelGraph) : Prop :=
  ∀ i ∈ before.tops, ∀ i' ∈ before.tops, (∃ j ∈ after.tops, Matches before after i j) →
    (∃ j ∈ after.tops, Matches before after i' j) → i = i'

instance (before after : LevelGraph) : Decidable (OneShared before after) :=
  inferInstanceAs (Decidable (∀ i ∈ before.tops, ∀ i' ∈ before.tops, (∃ j ∈ after.tops, Matches before after i j) →
    (∃ j ∈ after.tops, Matches before after i' j) → i = i'))

/-- With one top in common there is no object where each graph leaves the other. -/
theorem OneShared.not_partsBoth (hb : before.Tree) (ha : after.Tree) (h : OneShared before after) : ¬PartsBoth before after x := by
  rintro ⟨⟨p, ⟨i, hi, hp⟩, hpx⟩, q, ⟨j, hj, hq⟩, hqx⟩
  obtain ⟨j', hj', hm, hp, hpg⟩ := (partedAt_eq_some_iff ha).1 hp
  obtain ⟨i', hi', hm', hq, hqg⟩ := (partedAt_eq_some_iff hb).1 hq
  obtain rfl := h i hi i' hi' ⟨j', hj', hm⟩ ⟨j, hj, hm'.symm⟩
  obtain rfl := hm.unique ha hm'.symm
  obtain ⟨g, k⟩ := p
  obtain ⟨g', k'⟩ := q
  obtain rfl : g = before := hpg
  obtain rfl : g' = after := hqg
  exact not_matches_of_partedFrom hp hq (matches_iff.2 ⟨x, hpx, hqx⟩)

/-- Wherever each of two graphs leaves the other, it does so with the same parents, and both places count or neither does. -/
def Agrees (before after : LevelGraph) : Prop :=
  ∀ p q x, Parts before after p → Parts after before q → p.Names x → q.Names x →
    (p ∈ candidates before after ↔ q ∈ candidates after before) ∧
      ∀ y, (∃ t ∈ p.parentTokens, t.identity = y) ↔ ∃ t ∈ q.parentTokens, t.identity = y

theorem Agrees.symm (h : Agrees before after) : Agrees after before := fun p q x hp hq hpx hqx =>
  ⟨(h q p x hq hp hqx hpx).1.symm, fun y => ((h q p x hq hp hqx hpx).2 y).symm⟩

/-- What is shown anew in one order and not in the other was found at an object where each graph leaves the other. -/
theorem exists_both_of_mem_tokens (hb : before.Tree) (ha : after.Tree) (h : ∃ t ∈ tokens before after, t.identity = x)
    (hnot : ¬∃ t ∈ tokens after before, t.identity = x) :
    ∃ p ∈ candidates before after, ∃ y, p.Names y ∧ PartsBoth before after y ∧ ∃ t ∈ p.parentTokens, t.identity = x := by
  obtain ⟨p, hp, ht⟩ := exists_mem_tokens_iff.1 h
  obtain ⟨u, hu⟩ := (tree_of_mem_places hb ha (mem_uncovered_iff.1 hp).1).2
  refine ⟨p, hp, u.identity, ⟨u, hu, rfl⟩, by_contra fun hone => hnot ?_, ht⟩
  exact exists_mem_tokens_iff.2 ⟨p, mem_candidates_swap hb ha ⟨u, hu, rfl⟩ hone hp, ht⟩

/-- Where the graphs agree, all that is shown anew in one order is shown anew in the other. -/
theorem Agrees.exists_mem_tokens (hb : before.Tree) (ha : after.Tree) (h : Agrees before after)
    (hx : ∃ t ∈ tokens before after, t.identity = x) : ∃ t ∈ tokens after before, t.identity = x := by
  by_contra hnot
  obtain ⟨p, hp, y, hpy, hboth, ht⟩ := exists_both_of_mem_tokens hb ha hx hnot
  have hparts := ((mem_candidates_iff_of_both hb ha hpy hboth).1 hp).1
  obtain ⟨-, q, hq, hqy⟩ := hboth
  obtain ⟨hcounts, hparents⟩ := h p q y hparts hq hpy hqy
  exact hnot (exists_mem_tokens_iff.2 ⟨q, hcounts.1 hp, (hparents x).1 ht⟩)

/-- What the order of any two graphs that there can be matters to. The places of either order are of the same objects. Of an object where
only one graph leaves the other, a place counts in both orders or in neither. Of an object where each graph leaves the other, the place
that can count is that of the graph that comes first, and it does if no place of another object is above it. So what is shown anew in one
order only are parents of such objects. If the graphs agree at these objects, which they do with at most one top in common because there is
no such object then, the same objects are shown anew in either order. -/
theorem tokens_swapped (hb : before.Reachable) (ha : after.Reachable) :
    (∀ x, (∃ p ∈ places before after, p.Names x) ↔ ∃ p ∈ places after before, p.Names x) ∧
    (∀ p x, p.Names x → ¬PartsBoth before after x → (p ∈ candidates before after ↔ p ∈ candidates after before)) ∧
    (∀ p x, p.Names x → PartsBoth before after x → (p ∈ candidates before after ↔
      p.graph = before ∧ Parts before after p ∧ ∀ q ∈ places before after, q.covers p = true → q.same p = true)) ∧
    (∀ x, (∃ t ∈ tokens before after, t.identity = x) → (¬∃ t ∈ tokens after before, t.identity = x) →
      ∃ p ∈ candidates before after, ∃ y, p.Names y ∧ PartsBoth before after y ∧ ∃ t ∈ p.parentTokens, t.identity = x) ∧
    (Agrees before after → ∀ x, (∃ t ∈ tokens before after, t.identity = x) ↔ ∃ t ∈ tokens after before, t.identity = x) ∧
    (OneShared before after → (∀ x, ¬PartsBoth before after x) ∧ Agrees before after) := by
  have hb := hb.wellFormed.toTree
  have ha := ha.wellFormed.toTree
  refine ⟨fun x => ⟨exists_place_swap, exists_place_swap⟩, fun p x hx hnot => ?_, fun p x hx hboth => ?_,
    fun x => exists_both_of_mem_tokens hb ha, fun h x => ?_, fun h => ?_⟩
  · exact ⟨mem_candidates_swap hb ha hx hnot, mem_candidates_swap ha hb hx (mt PartsBoth.symm hnot)⟩
  · rw [mem_candidates_iff_of_both hb ha hx hboth]
    exact ⟨fun h => ⟨(h.1.exists_split ha).1, h⟩, And.right⟩
  · exact ⟨h.exists_mem_tokens hb ha, h.symm.exists_mem_tokens ha hb⟩
  · have hnone : ∀ x, ¬PartsBoth before after x := fun x => h.not_partsBoth hb ha
    exact ⟨hnone, fun p q x hp hq hpx hqx => absurd ⟨⟨p, hp, hpx⟩, q, hq, hqx⟩ (hnone x)⟩

/-- A page is put between a page and its parent, below one top: the parent is shown anew in either order. -/
theorem tokens_swapped_put_between :
    let a := Token.element "page" "site" "1"
    let n := Token.element "page" "site" "2"
    let m := Token.element "page" "site" "3"
    let t := Token.element "page" "site" "4"
    let l := (Listing.empty.add a m).add m t
    let l' := ((Listing.empty.add a n).add n m).add m t
    ∃ before c' after d', build none .both a false (Context.new (Catalog.ofTables l Hooks.empty) {}) = (.ok before, c') ∧
      build none .both a false (Context.new (Catalog.ofTables l' Hooks.empty) {}) = (.ok after, d') ∧
      before.Reachable ∧ after.Reachable ∧ OneShared before after ∧ tokens before after = [m] ∧
      ∀ x, (∃ t ∈ tokens before after, t.identity = x) ↔ ∃ t ∈ tokens after before, t.identity = x := by
  intro a n m t l l'
  have hview : ((build none .both a false (Context.new (Catalog.ofTables l Hooks.empty) {})).1.toOption.bind fun before =>
      (build none .both a false (Context.new (Catalog.ofTables l' Hooks.empty) {})).1.toOption.map fun after =>
        (decide (OneShared before after), tokens before after)) = some (true, [m]) := by decide +kernel
  obtain ⟨before, c', after, d', hb, ha, hvalues⟩ := Act.exists_of_map₂_eq_some hview
  obtain ⟨hshared, htokens⟩ := Prod.mk.inj hvalues
  have hone : OneShared before after := of_decide_eq_true hshared
  obtain ⟨-, -, -, -, hsame, hagrees⟩ := tokens_swapped (.built hb) (.built ha)
  exact ⟨before, c', after, d', hb, ha, .built hb, .built ha, hone, htokens, hsame (hagrees hone).2⟩

/-- A page below a top and below another page, which is below a second top, and the same with the tops exchanged. Each graph leaves the
other at the other page, and found another parent there, so the order decides which top is shown anew. -/
theorem tokens_not_swapped_two_tops :
    let r := Token.element "page" "site" "1"
    let x := Token.element "page" "site" "2"
    let t := Token.element "page" "site" "3"
    let u := Token.element "page" "site" "4"
    let l := ((Listing.empty.add r x).add r t).add x u
    let l' := ((Listing.empty.add r x).add r u).add x t
    ∃ before c' after d', build none .both r false (Context.new (Catalog.ofTables l Hooks.empty) {}) = (.ok before, c') ∧
      build none .both r false (Context.new (Catalog.ofTables l' Hooks.empty) {}) = (.ok after, d') ∧
      tokens before after = [u] ∧ tokens after before = [t] ∧ u.same t = false := by
  intro r x t u l l'
  have hview : ((build none .both r false (Context.new (Catalog.ofTables l Hooks.empty) {})).1.toOption.bind fun before =>
      (build none .both r false (Context.new (Catalog.ofTables l' Hooks.empty) {})).1.toOption.map fun after =>
        (tokens before after, tokens after before)) = some ([u], [t]) := by decide +kernel
  obtain ⟨before, c', after, d', hb, ha, hvalues⟩ := Act.exists_of_map₂_eq_some hview
  obtain ⟨hforward, hbackward⟩ := Prod.mk.inj hvalues
  exact ⟨before, c', after, d', hb, ha, hforward, hbackward, by decide +kernel⟩

end Difference
end Lineage
