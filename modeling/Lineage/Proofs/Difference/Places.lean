import Lineage.Proofs.Difference.Ways
import Lineage.Proofs.Token.Distinct

/-!
# Places that cover others, and what is found at the rest

A place covers another if its object is above the other in the graph of that other. In graphs of one ancestry without cycles what
covers is a proper ancestor, so among finitely many places there is always one that is covered by none. The tokens of a difference
are what the nodes at such places found as their parents.
-/

namespace Lineage

open LevelGraph

namespace Place

variable {f : Ancestry} {g : LevelGraph} {p q : Place} {i j c k n m : Nat} {t : Token} {x y : Identity}

/-! ## What is above a node -/

theorem mem_aboveWithin_succ : k ∈ aboveWithin g (n + 1) i ↔ ∃ p ∈ g.parents i, k = p ∨ k ∈ aboveWithin g n p := by
  simp only [aboveWithin, List.mem_flatMap, List.mem_cons]

/-- What is above a node is named at the end of steps from children to what they found. -/
theorem exists_transGen_of_mem_aboveWithin {R : Identity → Identity → Prop} (h : g.Tree)
    (hR : ∀ (c i : Nat) (x y : Identity), g.child? i = some c → Names ⟨g, c⟩ x → Names ⟨g, i⟩ y → R x y)
    (hx : Names ⟨g, i⟩ x) (hk : k ∈ aboveWithin g n i) : ∃ y, Names ⟨g, k⟩ y ∧ Relation.TransGen R x y := by
  induction n generalizing i x with
  | zero => cases hk
  | succ n ih =>
    obtain ⟨p, hp, hk⟩ := mem_aboveWithin_succ.1 hk
    have hc := (h.linked i p).1 hp
    obtain ⟨t, ht⟩ := exists_token?_iff.2 (lt_size_of_child? hc)
    have hstep := hR i p x t.identity hc hx ⟨t, ht, rfl⟩
    rcases hk with rfl | hk
    · exact ⟨t.identity, ⟨t, ht, rfl⟩, Relation.TransGen.single hstep⟩
    · obtain ⟨y, hy, hsteps⟩ := ih ⟨t, ht, rfl⟩ hk
      exact ⟨y, hy, hsteps.head hstep⟩

/-- A node whose child is above another node, or is that node, is above it. -/
theorem mem_aboveWithin_of_child (h : g.Tree) (hc : g.child? j = some c) (hi : c = i ∨ c ∈ aboveWithin g n i) :
    j ∈ aboveWithin g (n + 1) i := by
  induction n generalizing i with
  | zero =>
    rcases hi with rfl | hi
    · exact mem_aboveWithin_succ.2 ⟨j, (h.linked c j).2 hc, Or.inl rfl⟩
    · cases hi
  | succ n ih =>
    rcases hi with rfl | hi
    · exact mem_aboveWithin_succ.2 ⟨j, (h.linked c j).2 hc, Or.inl rfl⟩
    · obtain ⟨p, hp, hi⟩ := mem_aboveWithin_succ.1 hi
      exact mem_aboveWithin_succ.2 ⟨p, hp, Or.inr (ih hi)⟩

/-- Every node but the root is above the root. -/
theorem mem_above_root (h : g.Tree) (hpos : 0 < j) (hj : j < g.size) : j ∈ above ⟨g, 0⟩ := by
  suffices ∀ n, j ≤ n → j ∈ aboveWithin g n 0 from this g.size (Nat.le_of_lt hj)
  induction j using Nat.strongRecOn with
  | _ j ih =>
    intro n hn
    obtain ⟨c, hc, hlt, -⟩ := h.found j hpos hj
    obtain ⟨m, rfl⟩ : ∃ m, n = m + 1 := ⟨n - 1, by omega⟩
    refine mem_aboveWithin_of_child h hc ?_
    rcases Nat.eq_zero_or_pos c with rfl | hc0
    · exact Or.inl rfl
    · exact Or.inr (ih c hlt hc0 (Nat.lt_trans hlt hj) m (by omega))

theorem covers_iff : q.covers p = true ↔ ∃ k ∈ p.above, q.same ⟨p.graph, k⟩ = true := by
  simp only [covers, List.any_eq_true]

/-- What covers a place is named at the end of steps from children to what they found. -/
theorem transGen_of_covers {R : Identity → Identity → Prop} (h : p.graph.Tree)
    (hR : ∀ (c i : Nat) (x y : Identity), p.graph.child? i = some c → Names ⟨p.graph, c⟩ x → Names ⟨p.graph, i⟩ y → R x y)
    (hx : p.Names x) (hy : q.Names y) (hc : q.covers p = true) : Relation.TransGen R x y := by
  obtain ⟨k, hk, hs⟩ := covers_iff.1 hc
  obtain ⟨y', hy', hsteps⟩ := exists_transGen_of_mem_aboveWithin h hR hx hk
  obtain ⟨z, hqz, hkz⟩ := same_iff.1 hs
  rwa [hy.unique hqz, ← hy'.unique hkz]

/-- What covers a place is a proper ancestor of it. -/
theorem above_of_covers (h : p.graph.Charted f) (hx : p.Names x) (hy : q.Names y) (hc : q.covers p = true) :
    f.Above p.graph.search x y :=
  Ancestry.above_of_transGen (transGen_of_covers h.tree (fun _ _ _ _ hc hx hy => parent_of_names h hc hx hy) hx hy hc)

theorem mem_parentTokens_iff : t ∈ p.parentTokens ↔ ∃ j ∈ p.graph.parents p.id, p.graph.token? j = some t := by
  simp only [parentTokens, tokens, List.mem_filterMap]

end Place

namespace Difference

variable {f : Ancestry} {before after left right : LevelGraph} {p q : Place} {ps found : List Place} {x : Identity}

/-! ## The places where graphs part -/

theorem mem_addPlace_of_mem (h : p ∈ found) : p ∈ addPlace found q := by
  unfold addPlace
  split
  · exact h
  · exact List.mem_append_left _ h

/-- What is added was not there for the same object. -/
theorem mem_addPlace (h : p ∈ addPlace found q) : p ∈ found ∨ p = q ∧ ∀ r ∈ found, r.same p = false := by
  unfold addPlace at h
  split at h
  · exact Or.inl h
  · next hnew =>
    rw [List.mem_append, List.mem_singleton] at h
    refine h.imp_right fun hpq => ⟨hpq, fun r hr => ?_⟩
    rw [hpq]
    exact Bool.eq_false_iff.2 fun hs => hnew (List.any_eq_true.2 ⟨r, hr, hs⟩)

/-- A place is added, or there is one for the same object. -/
theorem exists_mem_addPlace (h : p ∈ found ∨ p = q) (hx : p.Names x) : ∃ r ∈ addPlace found q, r.Names x := by
  rcases h with h | rfl
  · exact ⟨p, mem_addPlace_of_mem h, hx⟩
  · unfold addPlace
    split
    · next hs =>
      obtain ⟨r, hr, hrp⟩ := List.any_eq_true.1 hs
      obtain ⟨y, hry, hpy⟩ := Place.same_iff.1 hrp
      exact ⟨r, hr, hx.unique hpy ▸ hry⟩
    · exact ⟨p, List.mem_append_right _ (List.mem_singleton.2 rfl), hx⟩

theorem mem_foldl_addPlace (h : p ∈ ps.foldl addPlace found) : p ∈ found ∨ p ∈ ps ∧ ∀ r ∈ found, r.same p = false := by
  induction ps generalizing found with
  | nil => exact Or.inl h
  | cons q ps ih =>
    rcases ih h with h | ⟨h, hnew⟩
    · exact (mem_addPlace h).imp_right fun ⟨hpq, hnew⟩ => ⟨hpq ▸ List.mem_cons_self, hnew⟩
    · exact Or.inr ⟨List.mem_cons_of_mem q h, fun r hr => hnew r (mem_addPlace_of_mem hr)⟩

theorem exists_mem_foldl_addPlace (h : p ∈ found ∨ p ∈ ps) (hx : p.Names x) :
    ∃ r ∈ ps.foldl addPlace found, r.Names x := by
  induction ps generalizing found p with
  | nil => exact ⟨p, h.resolve_right List.not_mem_nil, hx⟩
  | cons q ps ih =>
    rw [List.mem_cons, ← or_assoc] at h
    rcases h with h | h
    · obtain ⟨r, hr, hrx⟩ := exists_mem_addPlace h hx
      exact ih (Or.inl hr) hrx
    · exact ih (Or.inr h) hx

/-- At a place the first graph leaves the second, or the second leaves the first at an object where the first does not leave it. -/
theorem parts_or_new_of_mem_places (h : p ∈ places before after) :
    Parts before after p ∨ Parts after before p ∧ ∀ q, Parts before after q → q.same p = false := by
  rcases mem_foldl_addPlace h with h | ⟨h, hnew⟩
  · rcases mem_foldl_addPlace h with h | ⟨h, -⟩
    · cases h
    · exact Or.inl (List.mem_filterMap.1 h)
  · refine Or.inr ⟨List.mem_filterMap.1 h, fun q hq => Bool.eq_false_iff.2 fun hs => ?_⟩
    obtain ⟨x, hqx, hpx⟩ := Place.same_iff.1 hs
    have hfound : ∃ r ∈ addPlaces before after [], r.Names x := exists_mem_foldl_addPlace (Or.inr (List.mem_filterMap.2 hq)) hqx
    obtain ⟨r, hr, hrx⟩ := hfound
    exact Place.not_names_of_same (hnew r hr) hrx hpx

/-- At a place one of the graphs leaves the other. -/
theorem parts_of_mem_places (h : p ∈ places before after) : Parts before after p ∨ Parts after before p :=
  (parts_or_new_of_mem_places h).imp_right And.left

/-- Where one of the graphs leaves the other there is a place, for the same object at least. -/
theorem exists_mem_places (h : Parts before after p ∨ Parts after before p) (hx : p.Names x) :
    ∃ q ∈ places before after, q.Names x := by
  rcases h with h | h
  · have hbefore : ∃ q ∈ addPlaces before after [], q.Names x :=
      exists_mem_foldl_addPlace (Or.inr (List.mem_filterMap.2 h)) hx
    obtain ⟨q, hq, hqx⟩ := hbefore
    exact exists_mem_foldl_addPlace (Or.inl hq) hqx
  · exact exists_mem_foldl_addPlace (Or.inr (List.mem_filterMap.2 h)) hx

/-- Where one graph leaves the other at the same place below all its tops, that place is added. -/
theorem addPlaces_eq_addPlace (hp : p.same p = true) (hne : left.tops ≠ [])
    (h : ∀ top ∈ left.tops, partedAt left right top = some p) : addPlaces left right found = addPlace found p := by
  have hagain : addPlace (addPlace found p) p = addPlace found p := by
    refine if_pos ?_
    unfold addPlace
    split
    · next hold => exact hold
    · simp [hp]
  have hrest : ∀ tops : List NodeId, (∀ top ∈ tops, partedAt left right top = some p) →
      (tops.filterMap (partedAt left right)).foldl addPlace (addPlace found p) = addPlace found p := by
    intro tops h
    induction tops with
    | nil => rfl
    | cons top tops ih =>
      rw [List.filterMap_cons_some (h top List.mem_cons_self), List.foldl_cons, hagain]
      exact ih fun top' htop' => h top' (List.mem_cons_of_mem top htop')
  obtain ⟨top, tops, htops⟩ := List.exists_cons_of_ne_nil hne
  rw [htops] at h
  rw [addPlaces, htops, List.filterMap_cons_some (h top List.mem_cons_self), List.foldl_cons]
  exact hrest tops fun top' htop' => h top' (List.mem_cons_of_mem top htop')

/-- Where one graph leaves the other nowhere, nothing is added. -/
theorem addPlaces_eq_self (h : ∀ top ∈ left.tops, partedAt left right top = none) : addPlaces left right found = found := by
  rw [addPlaces, List.filterMap_eq_nil_iff.2 h]
  rfl

/-! ## The places that count -/

theorem mem_uncovered_iff : p ∈ uncovered ps ↔ p ∈ ps ∧ ∀ q ∈ ps, q.covers p = true → q.same p = true := by
  simp only [uncovered, List.mem_filter, Bool.not_eq_true', List.any_eq_false, Bool.and_eq_true, Bool.not_eq_true, not_and]
  refine and_congr_right fun _ => forall₂_congr fun q _ => ?_
  cases q.same p <;> cases q.covers p <;> simp

/-- If nothing is covered by anything else, all places count. -/
theorem uncovered_eq_self (h : ∀ p ∈ ps, ∀ q ∈ ps, q.covers p = true → q.same p = true) : uncovered ps = ps :=
  List.filter_eq_self.2 fun p hp => (List.mem_filter.1 (mem_uncovered_iff.2 ⟨hp, h p hp⟩)).2

/-- Without cycles there is a place that is covered by none. -/
theorem exists_mem_uncovered {search : Search} (hf : f.Acyclic search) (hne : ps ≠ [])
    (hps : ∀ p ∈ ps, p.graph.Charted f ∧ p.graph.search = search ∧ ∃ x, p.Names x) : ∃ p, p ∈ uncovered ps := by
  have hmem : ∀ x, x ∈ ps.filterMap (fun p => p.token?.map (·.identity)) ↔ ∃ p ∈ ps, p.Names x := by
    intro x
    simp only [List.mem_filterMap, Option.map_eq_some_iff]
    rfl
  obtain ⟨p₀, hp₀⟩ := List.exists_mem_of_ne_nil ps hne
  obtain ⟨-, -, x₀, hx₀⟩ := hps p₀ hp₀
  obtain ⟨x, hx, hmax⟩ := hf.exists_highest (List.ne_nil_of_mem ((hmem x₀).2 ⟨p₀, hp₀, hx₀⟩))
  obtain ⟨p, hp, hpx⟩ := (hmem x).1 hx
  -- what covers this place would be above it
  refine ⟨p, mem_uncovered_iff.2 ⟨hp, fun q hq hc => ?_⟩⟩
  obtain ⟨hg, rfl, -⟩ := hps p hp
  obtain ⟨-, -, y, hqy⟩ := hps q hq
  exact absurd (Place.above_of_covers hg hpx hqy hc) (hmax y ((hmem y).2 ⟨q, hq, hqy⟩))

/-- What a difference names are the parents that were found at the places that count. -/
theorem exists_mem_tokens_iff :
    (∃ t ∈ tokens before after, t.identity = x) ↔ ∃ p ∈ candidates before after, ∃ t ∈ p.parentTokens, t.identity = x := by
  rw [tokens, Token.exists_mem_distinct_iff]
  simp only [List.mem_flatMap]
  exact ⟨fun ⟨t, ⟨p, hp, ht⟩, hx⟩ => ⟨p, hp, t, ht, hx⟩, fun ⟨p, hp, t, ht, hx⟩ => ⟨t, ⟨p, hp, ht⟩, hx⟩⟩

end Difference
end Lineage
