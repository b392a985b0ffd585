import Lineage.Proofs.Difference.NewChild

/-!
# Which parents of a new child are shown anew

If the ways down from every top that the two graphs share differ in their last step only, from the parent to the child, the child is the
only place where the graphs part, and exactly its parents are shown anew. Otherwise there is another place as well. It is above the
child, as everything in the graph of the child is, so the child does not count, and of its parents only those are covered that have
something in common with what was found at the places that do count.
-/

namespace Lineage.Difference

open LevelGraph

/-- From every top that both graphs have, the way down in the second is that in the first with the root of the second at the end. -/
def SameWays (before after : LevelGraph) : Prop :=
  ∀ i ∈ before.tops, ∀ j ∈ after.tops, Matches before after i j →
    after.names (after.chain j) = before.names (before.chain i) ++ [after.root.identity]

instance (before after : LevelGraph) : Decidable (SameWays before after) :=
  inferInstanceAs (Decidable (∀ i ∈ before.tops, ∀ j ∈ after.tops, Matches before after i j →
    after.names (after.chain j) = before.names (before.chain i) ++ [after.root.identity]))

variable {f : Ancestry} {before after left right : LevelGraph} {p q : Place} {t : Token} {x y z : Identity} {i j k : Nat}
  {is js : List Nat} {xs : List Identity}

/-! ## Where the child is the only place -/

/-- A way whose first name is that of a node begins with a match of the node. -/
theorem exists_match_of_names (hi : Place.Names ⟨left, i⟩ x) (hjs : ∀ j ∈ js, j < right.size) (h : right.names js = x :: xs) :
    ∃ j, js.head? = some j ∧ Matches left right i j := by
  cases js with
  | nil => cases h
  | cons j js =>
    obtain ⟨t, ht⟩ := exists_token?_iff.2 (hjs j List.mem_cons_self)
    rw [right.names_cons ht] at h
    exact ⟨j, rfl, matches_iff.2 ⟨x, hi, t, ht, (List.cons.inj h).1⟩⟩

/-- With the same ways, the graph of the parent leaves that of the child nowhere. -/
theorem NewChild.not_parts_of_sameWays (h : NewChild f before after) (hw : SameWays before after) : ¬Parts before after p := by
  intro hp
  obtain ⟨-, i, hi, j, hj, hm, pre, pre', post, post', hL, hR, hpre, hne⟩ := hp.exists_split h.completeAfter.tree
  obtain ⟨t, ht⟩ := h.completeBefore.tree.exists_token_of_chain hi hL
  have hnames := hw i hi j hj hm
  rw [hL, hR, names_append, names_append, names_eq_of_matches hpre, List.append_assoc, List.append_cancel_left_eq,
    before.names_cons ht] at hnames
  obtain ⟨k, hk, hmatch⟩ := exists_match_of_names ⟨t, ht, rfl⟩ (fun k hk =>
    h.completeAfter.tree.lt_size_of_mem_chain (lt_size_of_mem_tops hj) (by rw [hR]; exact List.mem_append_right pre' hk)) hnames
  exact hne k hk hmatch

/-- With the same ways, the graph of the child leaves that of the parent at the child only. -/
theorem NewChild.names_of_sameWays (h : NewChild f before after) (hw : SameWays before after) (hp : Parts after before p) :
    p.Names after.root.identity := by
  obtain ⟨hg, j, hj, i, hi, hm, pre, pre', post, post', hL, hR, hpre, hne⟩ := hp.exists_split h.completeBefore.tree
  obtain ⟨t, ht⟩ := h.completeAfter.tree.exists_token_of_chain hj hL
  have hnames := hw i hi j hj hm.symm
  rw [hL, hR, names_append, names_append, names_eq_of_matches hpre, List.append_assoc, List.append_cancel_left_eq,
    after.names_cons ht] at hnames
  have hpt : p.token? = some t := by
    rw [Place.token?, hg]
    exact ht
  cases post' with
  | nil => exact ⟨t, hpt, (List.cons.inj hnames).1⟩
  | cons k post' =>
    obtain ⟨u, hu⟩ := h.completeBefore.tree.exists_token_of_chain hi hR
    rw [before.names_cons hu, List.cons_append] at hnames
    exact absurd (matches_iff.2 ⟨t.identity, ⟨t, ht, rfl⟩, u, hu, (List.cons.inj hnames).1.symm⟩) (hne k rfl)

/-- If there is a top with other ways, there is a place that is not the child. -/
theorem NewChild.exists_other_place (h : NewChild f before after) (hw : ¬SameWays before after) :
    ∃ p ∈ places before after, ∃ x, p.Names x ∧ x ≠ after.root.identity := by
  simp only [SameWays, not_forall] at hw
  obtain ⟨i, hi, j, hj, hm, hw⟩ := hw
  obtain ⟨pre, pre', k, post, post', hL, hR, hpre, hparts⟩ := h.exists_parted hi hj hm
  obtain ⟨t, ht⟩ := h.completeAfter.tree.exists_token_of_chain hj hL
  by_cases hx : t.identity = after.root.identity
  · -- the child is the end of its way, so the way of the parent goes on to somewhere else
    obtain rfl := h.eq_zero_of_names ⟨t, ht, hx⟩
    have hpost : post = [] := by
      cases post with
      | nil => rfl
      | cons c post =>
        have hc := h.completeAfter.tree.child?_of_chain (lt_size_of_mem_tops hj) hL
        rw [h.completeAfter.tree.bottom] at hc
        cases hc
    subst hpost
    cases post' with
    | nil =>
      rw [hL, hR, names_append, after.names_cons ht, names_eq_of_matches hpre, List.append_nil, hx] at hw
      exact absurd rfl hw
    | cons k post' =>
      obtain ⟨u, hu⟩ := h.completeBefore.tree.exists_token_of_chain hi hR
      have hku : Place.Names ⟨before, k⟩ u.identity := ⟨u, hu, rfl⟩
      have hk : u.identity ≠ after.root.identity := fun hu' => h.not_names_before ⟨u, hu, hu'⟩
      have hparted : partedFrom before after (before.chain i) (after.chain j) = some k := by
        rw [hR, hL, partedFrom_append (matches_flip hpre), partedFrom]
        refine if_neg fun hs => hk ?_
        obtain ⟨y, hky, hy⟩ := Place.same_iff.1 hs
        rw [← hy.unique ⟨t, ht, hx⟩]
        exact hku.unique hky
      obtain ⟨q, hq, hqu⟩ := exists_mem_places
        (Or.inl ⟨i, hi, (partedAt_eq_some_iff (p := ⟨before, k⟩) h.completeAfter.tree).2 ⟨j, hj, hm, hparted, rfl⟩⟩) hku
      exact ⟨q, hq, u.identity, hqu, hk⟩
  · obtain ⟨q, hq, hqt⟩ := exists_mem_places (Or.inr hparts) ⟨t, ht, rfl⟩
    exact ⟨q, hq, t.identity, hqt, hx⟩

/-! ## What is found at the child -/

/-- The root of the graph of the child found exactly the parents of the child. -/
theorem NewChild.exists_mem_parents_iff (h : NewChild f before after) :
    (∃ j ∈ after.parents 0, Place.Names ⟨after, j⟩ x) ↔ f.Parent .both after.root.identity x := by
  constructor
  · rintro ⟨j, hj, hx⟩
    obtain ⟨u, hu, hpar⟩ := h.completeAfter.parent_of_mem_parents h.completeAfter.tree.root hj
    rw [h.searchAfter] at hpar
    rwa [hx.unique ⟨u, hu, rfl⟩]
  · intro hx
    obtain ⟨j, hj⟩ := h.names_after_iff.2 hx.above.reaches
    refine ⟨j, ?_, hj⟩
    obtain ⟨u, hu, rfl⟩ := hj
    have hu : after.token? j = some u := hu
    -- the parent is on level one, so it was found by the only node of level zero
    have hd := h.completeAfter.distance hu
    rw [h.searchAfter] at hd
    have hle := hd.2 1 hx.chain
    have hpos : 0 < j := by
      refine Nat.pos_of_ne_zero fun hj => h.acyclic after.root.identity ?_
      rw [hj, h.completeAfter.tree.root] at hu
      cases hu
      exact hx.above
    obtain ⟨c, hc, -, hlevel⟩ := h.completeAfter.tree.found j hpos (lt_size_of_token? hu)
    have hc0 : after.levelOf c = 0 := by omega
    obtain ⟨v, hv⟩ := exists_token?_iff.2 (Nat.lt_trans (h.completeAfter.tree.lt_of_child? hc) (lt_size_of_token? hu))
    have hv0 := (h.completeAfter.distance hv).1
    rw [hc0] at hv0
    rw [h.eq_zero_of_names ⟨v, hv, hv0.eq_of_zero⟩] at hc
    exact (h.completeAfter.tree.linked 0 j).2 hc

/-- A place that names the child is the root of the graph of the child. -/
theorem NewChild.eq_of_names (h : NewChild f before after) (hp : p ∈ places before after) (hx : p.Names after.root.identity) :
    p = ⟨after, 0⟩ := by
  obtain ⟨g, i⟩ := p
  rcases (h.exists_parent_of_mem_places hp).1 with hg | hg
  · obtain rfl : g = before := hg
    exact absurd hx h.not_names_before
  · obtain rfl : g = after := hg
    rw [h.eq_zero_of_names hx]

/-- With the same ways, what is shown anew are the parents of the child. -/
theorem NewChild.exists_mem_tokens_iff_parent (h : NewChild f before after) (hw : SameWays before after) :
    (∃ t ∈ tokens before after, t.identity = x) ↔ f.Parent .both after.root.identity x := by
  have hall : ∀ p ∈ places before after, p = ⟨after, 0⟩ := by
    intro p hp
    rcases parts_of_mem_places hp with hparts | hparts
    · exact absurd hparts (h.not_parts_of_sameWays hw)
    · exact h.eq_of_names hp (h.names_of_sameWays hw hparts)
  rw [exists_mem_tokens_iff, ← h.exists_mem_parents_iff]
  constructor
  · rintro ⟨p, hp, t, ht, hx⟩
    obtain rfl := hall p (mem_uncovered_iff.1 hp).1
    obtain ⟨j, hj, hjt⟩ := Place.mem_parentTokens_iff.1 ht
    exact ⟨j, hj, t, hjt, hx⟩
  · rintro ⟨j, hj, t, ht, hx⟩
    obtain ⟨p, hp⟩ := h.exists_candidate
    obtain rfl := hall p (mem_uncovered_iff.1 hp).1
    exact ⟨_, hp, t, Place.mem_parentTokens_iff.2 ⟨j, hj, ht⟩, hx⟩

/-! ## Where there are other places -/

/-- If there is a top with other ways, the child does not count. -/
theorem NewChild.not_names_of_mem_candidates (h : NewChild f before after) (hw : ¬SameWays before after)
    (hp : p ∈ candidates before after) : ¬p.Names after.root.identity := by
  intro hpc
  obtain ⟨hp, hcov⟩ := mem_uncovered_iff.1 hp
  obtain ⟨q, hq, x, hqx, hx⟩ := h.exists_other_place hw
  obtain rfl := h.eq_of_names hp hpc
  -- the other place is above the child in the graph of the child, so it covers the child
  obtain ⟨j, hj⟩ := h.names_after_iff.2 (h.reaches_of_mem_places hq hqx)
  have hpos : 0 < j := Nat.pos_of_ne_zero fun hj0 => hx (hj.unique (hj0 ▸ hpc))
  obtain ⟨t, ht, -⟩ := id hj
  have hcovers : q.covers ⟨after, 0⟩ = true := Place.covers_iff.2
    ⟨j, Place.mem_above_root h.completeAfter.tree hpos (lt_size_of_token? ht), Place.same_iff.2 ⟨x, hqx, hj⟩⟩
  obtain ⟨y, hqy, hy⟩ := Place.same_iff.1 (hcov q hq hcovers)
  rw [hqx.unique hqy, hy.unique hpc] at hx
  exact hx rfl

/-- If there is a top with other ways, every place that counts is above the child. -/
theorem NewChild.above_of_mem_candidates (h : NewChild f before after) (hw : ¬SameWays before after)
    (hp : p ∈ candidates before after) (hx : p.Names x) : f.Above .both after.root.identity x := by
  rcases (h.reaches_of_mem_places (mem_uncovered_iff.1 hp).1 hx).eq_or_above with rfl | habove
  · exact absurd hx (h.not_names_of_mem_candidates hw hp)
  · exact habove

/-- If there is a top with other ways, a parent of the child that is not the known one and has nothing in common with the other parents
of the child is not covered. -/
theorem NewChild.not_covered (h : NewChild f before after) (hw : ¬SameWays before after)
    (hne : x ≠ before.root.identity)
    (halone : ∀ y, f.Parent .both after.root.identity y → y ≠ x → ∀ z, f.Reaches .both x z → ¬f.Reaches .both y z) :
    ¬∃ t ∈ tokens before after, f.Reaches .both x t.identity := by
  rintro ⟨t, ht, hxt⟩
  obtain ⟨p, hp, u, hu, hut⟩ := exists_mem_tokens_iff.1 ⟨t, ht, rfl⟩
  have hplace := (mem_uncovered_iff.1 hp).1
  obtain ⟨hg, hsearch⟩ := h.complete_of_mem_places hplace
  obtain ⟨-, ⟨y, hpy⟩, v, hv, hPv⟩ := h.exists_parent_of_mem_places hplace
  have hparent : ∀ w ∈ p.parentTokens, f.Parent .both y w.identity := by
    intro w hw
    obtain ⟨j, hj, hjw⟩ := Place.mem_parentTokens_iff.1 hw
    obtain ⟨s, hs, hsy⟩ := hpy
    obtain ⟨w', hw', hpar⟩ := hg.parent_of_mem_parents hs hj
    rw [hjw] at hw'
    cases hw'
    rwa [hsearch, hsy] at hpar
  -- the place is above one of the parents of the child; that is `x` itself or another one
  obtain ⟨r, hr, hry⟩ := (h.above_of_mem_candidates hw hp hpy).first
  by_cases hrx : r = x
  · subst hrx
    exact halone before.root.identity h.parent hne.symm v.identity (hry.trans (hparent v hv).above.reaches) hPv
  · refine halone r hr hrx t.identity hxt ?_
    rw [← hut]
    exact hry.trans (hparent u hu).above.reaches

/-! ## Building -/

section Build

variable {σ : Type} [Sources σ] {c c' d d' : Context σ} {parent child : Token} {scope scope' : Scope}

/-- A page with three parents, one of which is above another: what is shown anew does not cover the third one. The page is not the only
place where the graphs part, since the way down from the parent above goes by the other parent in one of them only, so that other parent
takes the place of the page. -/
theorem not_covered_third_parent :
    let above := Token.element "page" "site" "1"
    let parent := Token.element "page" "site" "2"
    let third := Token.element "page" "site" "3"
    let child := Token.element "page" "site" "4"
    let l := (((Listing.empty.add child parent).add child above).add child third).add parent above
    let f := Ancestry.ofTables l Hooks.empty
    let c := Context.new (Catalog.ofTables l Hooks.empty) {}
    f.Acyclic .both ∧ c.Stable f ∧ f.Parent .both child.identity parent.identity ∧ f.Parent .both child.identity third.identity ∧
      ∃ before after c' d',
        build none .both parent false c = (.ok before, c') ∧ build none .both child false c = (.ok after, d') ∧
        ¬∃ t ∈ tokens before after, f.Reaches .both third.identity t.identity := by
  intro above parent third child l f c
  have hf : f.Acyclic .both :=
    Ancestry.acyclic_ofTables (fun x => ["1", "2", "3", "4"].idxOf x.id) (by decide +kernel) (by decide +kernel)
  have hc : c.Stable f := Catalog.stable_ofTables l Hooks.empty {}
  have hp : f.Parent .both child.identity parent.identity := Ancestry.parent_both_iff.2 ⟨.native, parent, by decide +kernel, rfl⟩
  have hq : f.Parent .both child.identity third.identity := Ancestry.parent_both_iff.2 ⟨.native, third, by decide +kernel, rfl⟩
  have hnone : f.parents .both third.identity = [] := by decide +kernel
  have htokens : ((build none .both parent false c).1.toOption.bind fun before => (build none .both child false c).1.toOption.map
      fun after => (tokens before after).map (·.identity)) = some [above.identity] := by decide +kernel
  obtain ⟨before, c', after, d', hb, ha, hall⟩ := Act.exists_of_map₂_eq_some htokens
  refine ⟨hf, hc, hp, hq, before, after, c', d', hb, ha, fun ⟨t, ht, hr⟩ => ?_⟩
  have hmem := List.mem_map_of_mem (f := fun t : Token => t.identity) ht
  rw [hall, List.mem_singleton] at hmem
  -- the third parent has no parents, so it reaches nothing but itself
  rcases hr.eq_or_above with heq | habove
  · rw [hmem] at heq
    exact absurd heq (by decide)
  · obtain ⟨y, ⟨u, hu, -⟩, -⟩ := habove.first
    rw [hnone] at hu
    cases hu

/-- In stable contexts on sources that never fail and have no cycles, the difference between the graph of a parent and that of a child
of it names exactly the parents of the child, if the ways down from all common tops differ by the last step to the child only. Otherwise
the child gives way to places above it: there are places that count, none of them is the child and each is a proper ancestor of it. So a
parent of the child is covered exactly if these places have found it or an ancestor of it; it is not covered if it is not the known
parent and has nothing in common with the other parents of the child. In either case the known parent is covered, and with it all that
have it as an ancestor. -/
theorem covered_parents_of_new_child (hf : f.Acyclic .both) (hc : c.Stable f) (hd : d.Stable f)
    (hp : f.Parent .both child.identity parent.identity) (hb : build scope .both parent false c = (.ok before, c'))
    (ha : build scope' .both child false d = (.ok after, d')) :
    (SameWays before after → ∀ x, (∃ t ∈ tokens before after, t.identity = x) ↔ f.Parent .both child.identity x) ∧
    (¬SameWays before after → (∃ p, p ∈ candidates before after) ∧
      ∀ p ∈ candidates before after, ¬p.Names child.identity ∧ ∃ x, p.Names x ∧ f.Above .both child.identity x) ∧
    (¬SameWays before after → ∀ x, f.Parent .both child.identity x →
      ((∃ t ∈ tokens before after, f.Reaches .both x t.identity) ↔
        ∃ p ∈ candidates before after, ¬p.Names child.identity ∧ ∃ t ∈ p.parentTokens, f.Reaches .both x t.identity) ∧
      (x ≠ parent.identity →
        (∀ y, f.Parent .both child.identity y → y ≠ x → ∀ z, f.Reaches .both x z → ¬f.Reaches .both y z) →
        ¬∃ t ∈ tokens before after, f.Reaches .both x t.identity)) ∧
    ∀ x, f.Reaches .both x parent.identity → ∃ t ∈ tokens before after, f.Reaches .both x t.identity := by
  have h := newChild_of_build hf hc hd hp hb ha
  obtain ⟨-, -, -, rfl⟩ := complete_of_build hc hb
  obtain ⟨-, -, -, rfl⟩ := complete_of_build hd ha
  refine ⟨fun hw x => h.exists_mem_tokens_iff_parent hw, fun hw => ⟨h.exists_candidate, fun p hp => ?_⟩,
    fun hw x _ => ⟨?_, h.not_covered hw⟩, fun x hx => ?_⟩
  · obtain ⟨-, ⟨y, hpy⟩, -⟩ := h.exists_parent_of_mem_places (mem_uncovered_iff.1 hp).1
    exact ⟨h.not_names_of_mem_candidates hw hp, y, hpy, h.above_of_mem_candidates hw hp hpy⟩
  · constructor
    · rintro ⟨t, ht, hxt⟩
      obtain ⟨p, hp, u, hu, hut⟩ := exists_mem_tokens_iff.1 ⟨t, ht, rfl⟩
      exact ⟨p, hp, h.not_names_of_mem_candidates hw hp, u, hu, by rwa [hut]⟩
    · rintro ⟨p, hp, -, u, hu, hxu⟩
      obtain ⟨t, ht, htu⟩ := exists_mem_tokens_iff.2 ⟨p, hp, u, hu, rfl⟩
      exact ⟨t, ht, by rwa [htu]⟩
  · obtain ⟨t, ht, hr⟩ := h.exists_mem_tokens
    exact ⟨t, ht, hx.trans hr⟩

/-- A page with two parents below one top: the ways differ by the last step only, so both parents are shown anew. -/
theorem covered_parents_of_new_child_shared :
    let top := Token.element "page" "site" "1"
    let parent := Token.element "page" "site" "2"
    let second := Token.element "page" "site" "3"
    let child := Token.element "page" "site" "4"
    let l := (((Listing.empty.add child parent).add child second).add parent top).add second top
    let c := Context.new (Catalog.ofTables l Hooks.empty) {}
    ∃ before after c' d', build none .both parent false c = (.ok before, c') ∧ build none .both child false c = (.ok after, d') ∧
      SameWays before after ∧ ∃ t ∈ tokens before after, t.identity = second.identity := by
  intro top parent second child l c
  have hf : (Ancestry.ofTables l Hooks.empty).Acyclic .both :=
    Ancestry.acyclic_ofTables (fun x => ["1", "2", "3", "4"].idxOf x.id) (by decide +kernel) (by decide +kernel)
  have hc : c.Stable (Ancestry.ofTables l Hooks.empty) := Catalog.stable_ofTables l Hooks.empty {}
  have hp : (Ancestry.ofTables l Hooks.empty).Parent .both child.identity parent.identity :=
    Ancestry.parent_both_iff.2 ⟨.native, parent, by decide +kernel, rfl⟩
  have hq : (Ancestry.ofTables l Hooks.empty).Parent .both child.identity second.identity :=
    Ancestry.parent_both_iff.2 ⟨.native, second, by decide +kernel, rfl⟩
  have hways : ((build none .both parent false c).1.toOption.bind fun before => (build none .both child false c).1.toOption.map
      fun after => decide (SameWays before after)) = some true := by decide +kernel
  obtain ⟨before, c', after, d', hb, ha, hdecide⟩ := Act.exists_of_map₂_eq_some hways
  have hw : SameWays before after := of_decide_eq_true hdecide
  exact ⟨before, after, c', d', hb, ha, hw, ((covered_parents_of_new_child hf hc hc hp hb ha).1 hw _).2 hq⟩

end Build

end Lineage.Difference
