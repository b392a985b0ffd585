import Lineage.Proofs.Difference.Chains
import Lineage.Proofs.Graph.Canonical
import Mathlib.Data.Set.Finite.Basic
import Mathlib.Order.WellFounded

/-!
# What is left when places are dropped

A place is dropped if another one covers it, and what covers a place may be dropped itself. From a place to one that covers it, and on
from there, one comes to a place that counts or goes round in a circle. Within one graph what covers a place is higher up, so a circle has
places of both graphs, which do not agree on what is above what. Where the links of both graphs together have no cycle there is no circle,
and every place that is dropped has one above it that counts.
-/

namespace Lineage

open LevelGraph Relation

namespace LevelGraph

variable {g : LevelGraph} {i j k : Nat}

/-- What a node on a way down has on its own way down is on the longer way as well. -/
theorem Tree.mem_chain_trans (h : g.Tree) (hk : k < g.size) (hj : j ∈ g.chain k) (hi : i ∈ g.chain j) : i ∈ g.chain k := by
  refine h.climb (motive := fun k => j ∈ g.chain k → i ∈ g.chain k) (fun hj => ?_) (fun k c hkc ih hj => ?_) hk hj
  · rw [h.chain_root, List.mem_singleton] at hj
    rwa [hj] at hi
  · rw [h.chain_of_child hkc] at hj
    rcases List.mem_cons.1 hj with rfl | hj
    · exact hi
    · rw [h.chain_of_child hkc]
      exact List.mem_cons_of_mem k (ih hj)

end LevelGraph

namespace Difference

variable {f : Ancestry} {before after left right : LevelGraph} {p q r : Place} {ps : List Place} {x y : Identity} {i j : Nat}

/-! ## From a place to what covers it -/

/-- Of some places, one is covered by another, of another object. -/
def CoveredBy (ps : List Place) (p q : Place) : Prop := p ∈ ps ∧ q ∈ ps ∧ q.same p = false ∧ q.covers p = true

/-- Two places of different graphs, of which each leads to the other by what covers it, what covers that, and so on. -/
def Circle (ps : List Place) (p q : Place) : Prop :=
  p.graph ≠ q.graph ∧ TransGen (CoveredBy ps) p q ∧ TransGen (CoveredBy ps) q p

/-- The places that count are those that are covered by none. -/
theorem mem_uncovered_iff_not_coveredBy : p ∈ uncovered ps ↔ p ∈ ps ∧ ∀ q, ¬CoveredBy ps p q := by
  rw [mem_uncovered_iff]
  refine and_congr_right fun hp => ⟨fun h q ⟨_, hq, hs, hc⟩ => ?_, fun h q hq hc => ?_⟩
  · rw [h q hq hc] at hs
    cases hs
  · exact Bool.of_not_eq_false fun hs => h q ⟨hp, hq, hs, hc⟩

/-- From one of finitely many places one comes to the end of a relation, or goes round in a circle. -/
theorem exists_end_or_circle {R : Place → Place → Prop} (hR : ∀ p q, R p q → q ∈ ps) (hp : p ∈ ps) :
    ∃ q, ReflTransGen R p q ∧ ((∀ r, ¬R q r) ∨ TransGen R q q) := by
  by_cases hcircle : ∃ q, ReflTransGen R p q ∧ TransGen R q q
  · obtain ⟨q, hq, hqq⟩ := hcircle
    exact ⟨q, hq, Or.inr hqq⟩
  · -- without a circle the relation is well-founded on what is reached
    let S := {q // q ∈ ps ∧ ReflTransGen R p q}
    have hfinite : Finite S := ((List.finite_toSet ps).subset fun q hq => hq.1 : {q | q ∈ ps ∧ ReflTransGen R p q}.Finite)
    let after (q r : S) : Prop := TransGen R r.1 q.1
    have htrans : IsTrans S after := ⟨fun q r s hqr hrs => hrs.trans hqr⟩
    have hirrefl : Std.Irrefl after := ⟨fun q hq => hcircle ⟨q.1, q.2.2, hq⟩⟩
    obtain ⟨⟨q, hq, hreach⟩, -, hlast⟩ := (Finite.wellFounded_of_trans_of_irrefl after).has_min Set.univ
      ⟨⟨p, hp, ReflTransGen.refl⟩, trivial⟩
    exact ⟨q, hreach, Or.inl fun r hr => hlast ⟨r, hR q r hr, hreach.tail hr⟩ trivial (TransGen.single hr)⟩

/-! ## Within one graph -/

/-- A place of the same graph that covers another one is above it. -/
theorem CoveredBy.mem_above (hp : p.graph.Tree) (h : CoveredBy ps p q) (hg : q.graph = p.graph) : q.id ∈ p.above := by
  obtain ⟨-, -, -, hc⟩ := h
  obtain ⟨k, hk, hs⟩ := Place.covers_iff.1 hc
  obtain ⟨x, ⟨t, ht, htx⟩, u, hu, hux⟩ := Place.same_iff.1 hs
  rw [Place.token?, hg] at ht
  rwa [hp.distinct q.id k t u ht hu (htx.trans hux.symm)]

/-- What covers a place has a higher number, if it is of the same graph. -/
theorem CoveredBy.id_lt (hp : p.graph.Tree) (h : CoveredBy ps p q) (hg : q.graph = p.graph) : p.id < q.id :=
  (Place.mem_chain_of_mem_aboveWithin hp (h.mem_above hp hg)).2.1

/-- What covers a place of the same graph covers all that this place covers. -/
theorem CoveredBy.trans (hp : p.graph.Tree) (h : CoveredBy ps p q) (hg : q.graph = p.graph) (h' : CoveredBy ps q r) :
    CoveredBy ps p r := by
  have habove := h.mem_above hp hg
  obtain ⟨hpq, -, -, -⟩ := h
  obtain ⟨-, hr, -, hc⟩ := h'
  obtain ⟨k, hk, hs⟩ := Place.covers_iff.1 hc
  obtain ⟨hsize, hlt, hmem⟩ := Place.mem_chain_of_mem_aboveWithin (hg ▸ hp) hk
  obtain ⟨-, hlt', hmem'⟩ := Place.mem_chain_of_mem_aboveWithin hp habove
  rw [hg] at hsize hmem hs
  have hkp : k ≠ p.id := Nat.ne_of_gt (Nat.lt_trans hlt' hlt)
  refine ⟨hpq, hr, Bool.eq_false_iff.2 fun hsame => hkp ?_, Place.covers_iff.2 ⟨k, ?_, hs⟩⟩
  · obtain ⟨x, hx, u, hu, hux⟩ := Place.same_iff.1 hs
    obtain ⟨y, hy, t, ht, hty⟩ := Place.same_iff.1 hsame
    exact hp.distinct k p.id u t hu ht (by rw [hux, hty, hx.unique hy])
  · exact (Place.mem_above_iff hp).2 ⟨hsize, hkp, hp.mem_chain_trans hsize hmem hmem'⟩

/-- A place that is covered is covered by one that counts, or by one of the other graph. -/
theorem exists_kept_or_other (hp : p.graph.Tree) (h : CoveredBy ps p q) :
    ∃ q, CoveredBy ps p q ∧ (q ∈ uncovered ps ∨ q.graph ≠ p.graph) := by
  -- the numbers of what covers the place rise within its graph, so there is a highest one there
  obtain ⟨n, hn⟩ : ∃ n, p.graph.size - q.id = n := ⟨_, rfl⟩
  induction n using Nat.strongRecOn generalizing q with
  | _ n ih =>
    by_cases hg : q.graph = p.graph
    · by_cases hkept : q ∈ uncovered ps
      · exact ⟨q, h, Or.inl hkept⟩
      · rw [mem_uncovered_iff_not_coveredBy, not_and, not_forall_not] at hkept
        obtain ⟨r, hr⟩ := hkept h.2.1
        have hpr := h.trans hp hg hr
        by_cases hgr : r.graph = p.graph
        · have hlt := hr.id_lt (hg ▸ hp) (hgr.trans hg.symm)
          have hsize := (Place.mem_chain_of_mem_aboveWithin hp (h.mem_above hp hg)).1
          exact ih (p.graph.size - r.id) (hn ▸ Nat.sub_lt_sub_left hsize hlt) hpr rfl
        · exact ⟨r, hpr, Or.inr hgr⟩
    · exact ⟨q, h, Or.inr hg⟩

/-- On the way by what covers, either the graph changes or the numbers rise. -/
theorem exists_other_or_lt (hps : ∀ p ∈ ps, p.graph.Tree) (h : TransGen (CoveredBy ps) p q) :
    (∃ r, r.graph ≠ p.graph ∧ TransGen (CoveredBy ps) p r ∧ ReflTransGen (CoveredBy ps) r q) ∨
      q.graph = p.graph ∧ p.id < q.id := by
  induction h with
  | @single q h =>
    by_cases hg : q.graph = p.graph
    · exact Or.inr ⟨hg, h.id_lt (hps p h.1) hg⟩
    · exact Or.inl ⟨q, hg, TransGen.single h, ReflTransGen.refl⟩
  | @tail q q' hpq h ih =>
    rcases ih with ⟨r, hg, hpr, hrq⟩ | ⟨hg, hlt⟩
    · exact Or.inl ⟨r, hg, hpr, hrq.tail h⟩
    · by_cases hg' : q'.graph = p.graph
      · exact Or.inr ⟨hg', Nat.lt_trans hlt (h.id_lt (hps q h.1) (hg'.trans hg.symm))⟩
      · exact Or.inl ⟨q', hg', hpq.tail h, ReflTransGen.refl⟩

/-- A place that leads to itself is on a circle with one of the other graph. -/
theorem exists_circle (hps : ∀ p ∈ ps, p.graph.Tree) (h : TransGen (CoveredBy ps) p p) : ∃ q, Circle ps p q := by
  rcases exists_other_or_lt hps h with ⟨q, hg, hpq, hqp⟩ | ⟨-, hlt⟩
  · refine ⟨q, hg.symm, hpq, ?_⟩
    rcases reflTransGen_iff_eq_or_transGen.1 hqp with rfl | hqp
    · exact absurd rfl hg
    · exact hqp
  · exact absurd hlt (Nat.lt_irrefl _)

/-- From every place one comes to one that counts or to one on a circle. -/
theorem exists_kept_or_circle (hps : ∀ p ∈ ps, p.graph.Tree) (hp : p ∈ ps) :
    ∃ q, ReflTransGen (CoveredBy ps) p q ∧ (q ∈ uncovered ps ∨ ∃ r, Circle ps q r) := by
  obtain ⟨q, hq, hend⟩ := exists_end_or_circle (fun p q (h : CoveredBy ps p q) => h.2.1) hp
  refine ⟨q, hq, hend.imp (fun hnone => ?_) (exists_circle hps)⟩
  refine mem_uncovered_iff_not_coveredBy.2 ⟨?_, hnone⟩
  rcases ReflTransGen.cases_tail hq with rfl | ⟨r, -, hr⟩
  · exact hp
  · exact hr.2.1

/-! ## By the links of both graphs -/

/-- One of two graphs found an object through another one. -/
def Linked (before after : LevelGraph) (x y : Identity) : Prop :=
  ∃ g, (g = before ∨ g = after) ∧ ∃ c i : Nat, g.child? i = some c ∧ Place.Names ⟨g, c⟩ x ∧ Place.Names ⟨g, i⟩ y

/-- What a place leads to is above it by the links of both graphs. -/
theorem linked_of_coveredBy (hb : before.Tree) (ha : after.Tree) (h : TransGen (CoveredBy (places before after)) p q) (hx : p.Names x)
    (hy : q.Names y) : TransGen (Linked before after) x y := by
  have hstep : ∀ {p q x y}, CoveredBy (places before after) p q → p.Names x → q.Names y → TransGen (Linked before after) x y := by
    rintro p q x y ⟨hp, -, -, hc⟩ hx hy
    exact Place.transGen_of_covers (tree_of_mem_places hb ha hp).1
      (fun c i x y hci hcx hiy => ⟨p.graph, graph_of_mem_places hb ha hp, c, i, hci, hcx, hiy⟩) hx hy hc
  induction h generalizing y with
  | single h => exact hstep h hx hy
  | tail _ h ih =>
    obtain ⟨t, ht⟩ := (tree_of_mem_places hb ha h.1).2
    exact (ih ⟨t, ht, rfl⟩).trans (hstep h ⟨t, ht, rfl⟩ hy)

/-- The links of an undisturbed graph are steps to parents. -/
theorem parent_of_undisturbed {scope : Scope} {search : Search} {root : Token} {g : LevelGraph} (h : Undisturbed f scope search root g)
    (hc : g.child? i = some j) (hx : Place.Names ⟨g, j⟩ x) (hy : Place.Names ⟨g, i⟩ y) : f.Parent search x y := by
  obtain ⟨d, -, rfl⟩ := h.exists_stage
  obtain ⟨hcharted, hsearch, -⟩ := charted_stage f scope search root d
  have hp := Place.parent_of_names hcharted hc hx hy
  rwa [hsearch] at hp

/-- So the links of two graphs of one ancestry lead to proper ancestors. -/
theorem above_of_linked {scope scope' : Scope} {search : Search} {root root' : Token}
    (hb : Undisturbed f scope search root before) (ha : Undisturbed f scope' search root' after)
    (h : TransGen (Linked before after) x y) : f.Above search x y := by
  refine Ancestry.above_of_transGen (TransGen.mono ?_ x y h)
  rintro x y ⟨g, rfl | rfl, c, i, hc, hx, hy⟩
  · exact parent_of_undisturbed hb hc hx hy
  · exact parent_of_undisturbed ha hc hx hy

/-! ## Where anything changed -/

/-- From a top that both graphs have, the ways down name different objects. -/
def Differs (before after : LevelGraph) : Prop :=
  ∃ i ∈ before.tops, ∃ j ∈ after.tops, Matches before after i j ∧ before.names (before.chain i) ≠ after.names (after.chain j)

instance (before after : LevelGraph) : Decidable (Differs before after) :=
  inferInstanceAs (Decidable (∃ i ∈ before.tops, ∃ j ∈ after.tops, Matches before after i j ∧
    before.names (before.chain i) ≠ after.names (after.chain j)))

/-- One of two ways that name different objects leaves the other. -/
theorem exists_partedFrom {L R : List Nat} (h : left.names L ≠ right.names R) :
    (∃ i, partedFrom left right L R = some i) ∨ ∃ j, partedFrom right left R L = some j := by
  obtain ⟨pre, pre', post, post', rfl, rfl, hpre, hparted, -⟩ := exists_shared left right L R
  cases post with
  | cons i post => exact Or.inl ⟨i, hparted⟩
  | nil =>
    cases post' with
    | cons j post' =>
      refine Or.inr ⟨j, ?_⟩
      rw [partedFrom_append (matches_flip hpre)]
      rfl
    | nil =>
      rw [List.append_nil, List.append_nil] at h
      exact absurd (names_eq_of_matches hpre) h

/-- Where one graph leaves the other, the ways name different objects. -/
theorem Parts.differs (hl : left.Tree) (hr : right.Tree) (h : Parts left right p) : Differs left right := by
  obtain ⟨t, ht⟩ := h.exists_token hl hr
  obtain ⟨hg, i, hi, j, hj, hm, pre, pre', post, post', hL, hR, hpre, hne⟩ := h.exists_split hr
  rw [Place.token?, hg] at ht
  refine ⟨i, hi, j, hj, hm, fun hnames => ?_⟩
  rw [hL, hR, names_append, names_append, names_eq_of_matches hpre, List.append_cancel_left_eq, left.names_cons ht] at hnames
  cases post' with
  | nil => cases hnames
  | cons k post' =>
    obtain ⟨u, hu⟩ := hr.exists_token_of_chain hj hR
    rw [right.names_cons hu] at hnames
    exact hne k rfl (matches_iff.2 ⟨t.identity, ⟨t, ht, rfl⟩, u, hu, (List.cons.inj hnames).1.symm⟩)

/-- There are places exactly if the ways down from some shared top differ. -/
theorem places_ne_nil_iff (hb : before.Tree) (ha : after.Tree) : places before after ≠ [] ↔ Differs before after := by
  constructor
  · intro h
    obtain ⟨p, hp⟩ := List.exists_mem_of_ne_nil _ h
    rcases parts_of_mem_places hp with hp | hp
    · exact hp.differs hb ha
    · obtain ⟨j, hj, i, hi, hm, hne⟩ := hp.differs ha hb
      exact ⟨i, hi, j, hj, hm.symm, hne.symm⟩
  · rintro ⟨i, hi, j, hj, hm, hne⟩
    suffices h : ∃ p, Parts before after p ∨ Parts after before p by
      obtain ⟨p, hp⟩ := h
      obtain ⟨t, ht⟩ : ∃ t, p.token? = some t := by
        rcases hp with hp | hp
        · exact hp.exists_token hb ha
        · exact hp.exists_token ha hb
      obtain ⟨q, hq, -⟩ := exists_mem_places hp ⟨t, ht, rfl⟩
      exact List.ne_nil_of_mem hq
    rcases exists_partedFrom hne with ⟨k, hk⟩ | ⟨k, hk⟩
    · exact ⟨⟨before, k⟩, Or.inl ⟨i, hi, (partedAt_eq_some_iff ha).2 ⟨j, hj, hm, hk, rfl⟩⟩⟩
    · exact ⟨⟨after, k⟩, Or.inr ⟨j, hj, (partedAt_eq_some_iff hb).2 ⟨i, hi, hm.symm, hk, rfl⟩⟩⟩

/-- Every place has parents. -/
theorem parentTokens_ne_nil (hb : before.Tree) (ha : after.Tree) (hp : p ∈ places before after) : p.parentTokens ≠ [] := by
  have hside : ∀ {left right}, left.Tree → right.Tree → Parts left right p → p.parentTokens ≠ [] := by
    intro left right hl hr h
    obtain ⟨rfl, j, hj, k, hm⟩ := h.exists_parent hl hr
    obtain ⟨t, ht⟩ := exists_token?_iff.2 hm.lt_size
    exact List.ne_nil_of_mem (Place.mem_parentTokens_iff.2 ⟨j, hj, ht⟩)
  rcases parts_of_mem_places hp with h | h
  · exact hside hb ha h
  · exact hside ha hb h

/-- Something is shown anew exactly if some place counts. -/
theorem tokens_ne_nil_iff (hb : before.Tree) (ha : after.Tree) : tokens before after ≠ [] ↔ candidates before after ≠ [] := by
  constructor
  · intro h hnone
    rw [tokens, hnone] at h
    exact h rfl
  · intro h
    obtain ⟨p, hp⟩ := List.exists_mem_of_ne_nil _ h
    obtain ⟨t, ht⟩ := List.exists_mem_of_ne_nil _ (parentTokens_ne_nil hb ha (mem_uncovered_iff.1 hp).1)
    obtain ⟨u, hu, -⟩ := exists_mem_tokens_iff.2 ⟨p, hp, t, ht, rfl⟩
    exact List.ne_nil_of_mem hu

/-! ## What is lost -/

/-- From every place of a difference one comes to one that counts or to one on a circle. -/
theorem exists_candidate_or_circle (hb : before.Tree) (ha : after.Tree) (hp : p ∈ places before after) :
    ∃ q, ReflTransGen (CoveredBy (places before after)) p q ∧
      (q ∈ candidates before after ∨ ∃ r, Circle (places before after) q r) :=
  exists_kept_or_circle (fun _ hp => (tree_of_mem_places hb ha hp).1) hp

/-- Where the ways down differ something is shown anew, or there is a circle. -/
theorem tokens_ne_nil_or_circle (hb : before.Tree) (ha : after.Tree) (hd : Differs before after) :
    tokens before after ≠ [] ∨ ∃ p q, Circle (places before after) p q := by
  obtain ⟨p, hp⟩ := List.exists_mem_of_ne_nil _ ((places_ne_nil_iff hb ha).2 hd)
  obtain ⟨q, -, hq | ⟨r, hr⟩⟩ := exists_candidate_or_circle hb ha hp
  · exact Or.inl ((tokens_ne_nil_iff hb ha).2 (List.ne_nil_of_mem hq))
  · exact Or.inr ⟨q, r, hr⟩

/-- On a circle an object is above itself by the links of both graphs. -/
theorem Circle.exists_linked (hb : before.Tree) (ha : after.Tree) (h : Circle (places before after) p q) :
    ∃ x, TransGen (Linked before after) x x := by
  obtain ⟨-, hpq, hqp⟩ := h
  obtain ⟨r, hr, -⟩ := TransGen.head'_iff.1 hpq
  obtain ⟨t, ht⟩ := (tree_of_mem_places hb ha hr.1).2
  exact ⟨t.identity, linked_of_coveredBy hb ha (hpq.trans hqp) ⟨t, ht, rfl⟩ ⟨t, ht, rfl⟩⟩

/-- Without circles a place that is dropped has one that counts above it, by the links of both graphs. -/
theorem exists_candidate_linked (hb : before.Tree) (ha : after.Tree) (hnone : ∀ p q, ¬Circle (places before after) p q)
    (hp : p ∈ places before after) (hdropped : p ∉ candidates before after) (hx : p.Names x) :
    ∃ q ∈ candidates before after, ∃ y, q.Names y ∧ TransGen (Linked before after) x y := by
  obtain ⟨q, hpq, hq | ⟨r, hr⟩⟩ := exists_candidate_or_circle hb ha hp
  · obtain ⟨t, ht⟩ := (tree_of_mem_places hb ha (mem_uncovered_iff.1 hq).1).2
    rcases reflTransGen_iff_eq_or_transGen.1 hpq with rfl | hpq
    · exact absurd hq hdropped
    · exact ⟨q, hq, t.identity, ⟨t, ht, rfl⟩, linked_of_coveredBy hb ha hpq hx ⟨t, ht, rfl⟩⟩
  · exact absurd hr (hnone q r)

/-- What becomes of the places of any two graphs that there can be. One that is dropped has above it, in its own graph, a place that counts
or one of the other graph. From each one comes, by what covers it, what covers that and so on, to a place that counts or to one on a circle
with places of both graphs. There are places exactly if the ways down from some shared top differ, and then something is shown anew,
unless there is such a circle. There is none if the links of both graphs together have no cycle, as those of graphs of one ancestry without
cycles. Then a place that is dropped has one that counts above it by these links. -/
theorem dropped_or_circle (hb : before.Reachable) (ha : after.Reachable) :
    (∀ p ∈ places before after, p ∉ candidates before after →
      ∃ q, CoveredBy (places before after) p q ∧ (q ∈ candidates before after ∨ q.graph ≠ p.graph)) ∧
    (∀ p ∈ places before after, ∃ q, ReflTransGen (CoveredBy (places before after)) p q ∧
      (q ∈ candidates before after ∨ ∃ r, Circle (places before after) q r)) ∧
    (places before after ≠ [] ↔ Differs before after) ∧
    (Differs before after → tokens before after ≠ [] ∨ ∃ p q, Circle (places before after) p q) ∧
    ((∀ x, ¬TransGen (Linked before after) x x) →
      (∀ p q, ¬Circle (places before after) p q) ∧ (Differs before after → tokens before after ≠ []) ∧
      ∀ p ∈ places before after, p ∉ candidates before after → ∀ x, p.Names x →
        ∃ q ∈ candidates before after, ∃ y, q.Names y ∧ TransGen (Linked before after) x y) ∧
    ∀ f scope scope' search root root', f.Acyclic search → Undisturbed f scope search root before →
      Undisturbed f scope' search root' after → ∀ x, ¬TransGen (Linked before after) x x := by
  have hb := hb.wellFormed.toTree
  have ha := ha.wellFormed.toTree
  refine ⟨fun p hp hdropped => ?_, fun p hp => exists_candidate_or_circle hb ha hp, places_ne_nil_iff hb ha,
    tokens_ne_nil_or_circle hb ha, fun hacyclic => ?_, fun f scope scope' search root root' hf hub hua x hx => ?_⟩
  · rw [candidates, mem_uncovered_iff_not_coveredBy, not_and, not_forall_not] at hdropped
    obtain ⟨q, hq⟩ := hdropped hp
    exact exists_kept_or_other (tree_of_mem_places hb ha hp).1 hq
  · have hnone : ∀ p q, ¬Circle (places before after) p q := by
      intro p q h
      obtain ⟨x, hx⟩ := h.exists_linked hb ha
      exact hacyclic x hx
    refine ⟨hnone, fun hd => ?_, fun p hp hdropped x hx => exists_candidate_linked hb ha hnone hp hdropped hx⟩
    rcases tokens_ne_nil_or_circle hb ha hd with h | ⟨p, q, h⟩
    · exact h
    · exact absurd h (hnone p q)
  · exact hf x (above_of_linked hub hua hx)

/-- A page below two tops, and another one below the same tops, by a page that is above it and below the second top. The other page is
dropped for the one above it, so of three places two count. -/
theorem dropped_or_circle_below_another :
    let a := Token.element "page" "site" "1"
    let b := Token.element "page" "site" "2"
    let m := Token.element "page" "site" "3"
    let n := Token.element "page" "site" "4"
    let t := Token.element "page" "site" "5"
    let u := Token.element "page" "site" "6"
    let l := (((((Listing.empty.add a m).add a u).add b m).add b n).add m t).add n u
    let c := Context.new (Catalog.ofTables l Hooks.empty) {}
    ∃ before c' after d', build none .both a false c = (.ok before, c') ∧ build none .both b false c = (.ok after, d') ∧
      before.Reachable ∧ after.Reachable ∧ Differs before after ∧ tokens before after ≠ [] ∧
      ∃ p ∈ places before after, p ∉ candidates before after ∧
        (∃ q, CoveredBy (places before after) p q ∧ (q ∈ candidates before after ∨ q.graph ≠ p.graph)) ∧
        ∃ q ∈ candidates before after, ∃ x y, p.Names x ∧ q.Names y ∧ TransGen (Linked before after) x y := by
  intro a b m n t u l c
  have hf : (Ancestry.ofTables l Hooks.empty).Acyclic .both :=
    Ancestry.acyclic_ofTables (fun x => ["6", "5", "4", "3", "2", "1"].idxOf x.id) (by decide +kernel) (by decide +kernel)
  have hc : c.Stable (Ancestry.ofTables l Hooks.empty) := Catalog.stable_ofTables l Hooks.empty {}
  have hview : ((build none .both a false c).1.toOption.bind fun before => (build none .both b false c).1.toOption.map fun after =>
      (decide (Differs before after), (places before after).length, (candidates before after).length)) = some (true, 3, 2) := by
    decide +kernel
  obtain ⟨before, c', after, d', hb, ha, hvalues⟩ := Act.exists_of_map₂_eq_some hview
  obtain ⟨hdiffers, hplaces, hcandidates⟩ : _ ∧ _ ∧ _ := by simpa using hvalues
  obtain ⟨hcovered, -, -, -, hacyclic, hone⟩ := dropped_or_circle (Reachable.built hb) (Reachable.built ha)
  obtain ⟨-, hshown, hkept⟩ := hacyclic (hone _ none none .both a b hf (Undisturbed.built hc hb) (Undisturbed.built hc ha))
  obtain ⟨p, hp, hdropped⟩ : ∃ p ∈ places before after, p ∉ candidates before after := by
    by_contra hall
    have hall : ∀ p ∈ places before after, p ∈ candidates before after := fun p hp => by_contra fun hn => hall ⟨p, hp, hn⟩
    have hsame : candidates before after = places before after :=
      List.filter_eq_self.2 fun p hp => (List.mem_filter.1 (hall p hp)).2
    rw [hsame, hplaces] at hcandidates
    cases hcandidates
  obtain ⟨v, hv⟩ := (tree_of_mem_places (Reachable.built hb).wellFormed.toTree (Reachable.built ha).wellFormed.toTree hp).2
  obtain ⟨q, hq, y, hy, hlinked⟩ := hkept p hp hdropped v.identity ⟨v, hv, rfl⟩
  exact ⟨before, c', after, d', hb, ha, .built hb, .built ha, hdiffers, hshown hdiffers, p, hp, hdropped, hcovered p hp hdropped, q, hq,
    v.identity, y, ⟨v, hv, rfl⟩, hy, hlinked⟩

/-- Two pages above one another change places below their top. Each of the two is the place where one of the graphs leaves the other, and
each is above the other there, so both are dropped: the ways down from the top differ, and nothing is shown anew. Nor has a place that is
dropped always one that counts above it in its own graph, even with one ancestry without cycles: what covers page 3 is page 4, which is
dropped itself, since page 5 is above it in the graph of page 2. In the graph of page 1 that page is not above page 3, but beside it. -/
theorem not_kept_above :
    let page := fun id => Token.element "page" "site" id
    let l := ((Listing.empty.add (page "1") (page "2")).add (page "2") (page "3")).add (page "2") (page "4")
    let l' := ((Listing.empty.add (page "1") (page "3")).add (page "3") (page "2")).add (page "3") (page "4")
    let m := (((((((Listing.empty.add (page "1") (page "5")).add (page "1") (page "3")).add (page "2") (page "4")).add (page "3")
      (page "4")).add (page "4") (page "5")).add (page "4") (page "6")).add (page "4") (page "7")).add (page "5") (page "6")
    (∃ before c' after d', build none .both (page "1") false (Context.new (Catalog.ofTables l Hooks.empty) {}) = (.ok before, c') ∧
      build none .both (page "1") false (Context.new (Catalog.ofTables l' Hooks.empty) {}) = (.ok after, d') ∧
      Differs before after ∧ (places before after).length = 2 ∧ candidates before after = [] ∧ tokens before after = []) ∧
    (Ancestry.ofTables m Hooks.empty).Acyclic .both ∧
      ∃ before c' after d', build none .both (page "1") false (Context.new (Catalog.ofTables m Hooks.empty) {}) = (.ok before, c') ∧
        build none .both (page "2") false (Context.new (Catalog.ofTables m Hooks.empty) {}) = (.ok after, d') ∧
        ∃ p ∈ places before after, ∀ q ∈ candidates before after, q.same p = false ∧ q.covers p = false := by
  intro page l l' m
  refine ⟨?_, ?_, ?_⟩
  · have hview : ((build none .both (page "1") false (Context.new (Catalog.ofTables l Hooks.empty) {})).1.toOption.bind fun before =>
        (build none .both (page "1") false (Context.new (Catalog.ofTables l' Hooks.empty) {})).1.toOption.map fun after =>
          (decide (Differs before after), (places before after).length, (candidates before after).length, tokens before after)) =
        some (true, 2, 0, []) := by decide +kernel
    obtain ⟨before, c', after, d', hb, ha, hvalues⟩ := Act.exists_of_map₂_eq_some hview
    obtain ⟨hdiffers, hplaces, hcandidates, htokens⟩ : _ ∧ _ ∧ _ ∧ _ := by simpa using hvalues
    exact ⟨before, c', after, d', hb, ha, hdiffers, hplaces, hcandidates, htokens⟩
  · exact Ancestry.acyclic_ofTables (fun x => ["7", "6", "5", "4", "3", "2", "1"].idxOf x.id) (by decide +kernel) (by decide +kernel)
  · have hview : ((build none .both (page "1") false (Context.new (Catalog.ofTables m Hooks.empty) {})).1.toOption.bind fun before =>
        (build none .both (page "2") false (Context.new (Catalog.ofTables m Hooks.empty) {})).1.toOption.map fun after =>
          decide (∃ p ∈ places before after, ∀ q ∈ candidates before after, q.same p = false ∧ q.covers p = false)) = some true := by
      decide +kernel
    obtain ⟨before, c', after, d', hb, ha, hvalue⟩ := Act.exists_of_map₂_eq_some hview
    exact ⟨before, c', after, d', hb, ha, of_decide_eq_true hvalue⟩

end Difference
end Lineage
