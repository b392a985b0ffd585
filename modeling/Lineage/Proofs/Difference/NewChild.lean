import Lineage.Proofs.Difference.Places
import Lineage.Proofs.Refresher
import Lineage.Proofs.Sources

/-!
# The difference that a new child makes

The graph of a child has everything that the graph of its parent has, and the child, which the other has not. So from a top that both
have, which there always is without cycles, the ways down part. Where they part the node has found a parent that both graphs have, so
the tokens of the difference cover the parent.
-/

namespace Lineage.Difference

open LevelGraph

/-- `before` is the complete graph of a parent, and `after` that of a child of it, of one ancestry without cycles. -/
structure NewChild (f : Ancestry) (before after : LevelGraph) : Prop where
  acyclic : f.Acyclic .both
  completeBefore : before.Complete f
  completeAfter : after.Complete f
  searchBefore : before.search = .both
  searchAfter : after.search = .both
  parent : f.Parent .both after.root.identity before.root.identity

variable {f : Ancestry} {before after : LevelGraph} {p q : Place} {t : Token} {x y : Identity} {i j : Nat}

/-! ## What the two graphs name -/

/-- The graph of the parent names what is reached from the parent. -/
theorem NewChild.names_before_iff (h : NewChild f before after) :
    (∃ i, Place.Names ⟨before, i⟩ x) ↔ f.Reaches .both before.root.identity x := by
  have := h.completeBefore.exists_token_iff (x := x)
  rwa [h.searchBefore] at this

/-- The graph of the child names what is reached from the child. -/
theorem NewChild.names_after_iff (h : NewChild f before after) :
    (∃ i, Place.Names ⟨after, i⟩ x) ↔ f.Reaches .both after.root.identity x := by
  have := h.completeAfter.exists_token_iff (x := x)
  rwa [h.searchAfter] at this

/-- What is reached from the parent are proper ancestors of the child. -/
theorem NewChild.above_of_reaches (h : NewChild f before after) (hx : f.Reaches .both before.root.identity x) :
    f.Above .both after.root.identity x :=
  h.parent.above.trans_reaches hx

/-- The child is not in the graph of its parent. -/
theorem NewChild.not_names_before (h : NewChild f before after) : ¬Place.Names ⟨before, i⟩ after.root.identity :=
  fun hi => h.acyclic _ (h.above_of_reaches (h.names_before_iff.1 ⟨i, hi⟩))

/-- Only the root names the child. -/
theorem NewChild.eq_zero_of_names (h : NewChild f before after) (hi : Place.Names ⟨after, i⟩ after.root.identity) : i = 0 := by
  obtain ⟨t, ht, hx⟩ := hi
  exact h.completeAfter.tree.distinct i 0 t after.root ht h.completeAfter.tree.root hx

/-- A node that names something without parents is a top. -/
theorem mem_tops_of_no_parents {g : LevelGraph} (h : g.Charted f) (hi : Place.Names ⟨g, i⟩ x)
    (hx : ∀ y, ¬f.Parent g.search x y) : i ∈ g.tops := by
  obtain ⟨t, ht, rfl⟩ := hi
  refine List.mem_filter.2 ⟨List.mem_range.2 (lt_size_of_token? ht), ?_⟩
  rw [List.isEmpty_iff, List.eq_nil_iff_forall_not_mem]
  intro j hj
  obtain ⟨u, -, hu⟩ := h.parent_of_mem_parents ht hj
  exact hx _ hu

/-- The graphs have a top in common. -/
theorem NewChild.exists_shared_top (h : NewChild f before after) :
    ∃ i ∈ before.tops, ∃ j ∈ after.tops, Matches before after i j := by
  -- the highest of what is in the graph of the parent has no parents, for these would be in it as well
  have hmem : ∀ x, x ∈ before.levels.toList.flatMap before.names ↔ f.Reaches .both before.root.identity x := by
    intro x
    rw [h.completeBefore.mem_names_iff, h.searchBefore]
  have hroot := (hmem before.root.identity).2 (Ancestry.Reaches.refl _)
  obtain ⟨x, hx, hmax⟩ := h.acyclic.exists_highest (List.ne_nil_of_mem hroot)
  rw [hmem] at hx
  have hno : ∀ y, ¬f.Parent .both x y := fun y hy => hmax y ((hmem y).2 (hx.trans hy.above.reaches)) hy.above
  obtain ⟨i, hi⟩ := h.names_before_iff.2 hx
  obtain ⟨j, hj⟩ := h.names_after_iff.2 (h.above_of_reaches hx).reaches
  refine ⟨i, ?_, j, ?_, matches_iff.2 ⟨x, hi, hj⟩⟩
  · exact mem_tops_of_no_parents h.completeBefore.toCharted hi (by rwa [h.searchBefore])
  · exact mem_tops_of_no_parents h.completeAfter.toCharted hj (by rwa [h.searchAfter])

/-! ## Where they part -/

/-- At a place the node is of one of the two graphs, names something, and found a parent that is reached from the parent. -/
theorem NewChild.exists_parent_of_mem_places (h : NewChild f before after) (hp : p ∈ places before after) :
    (p.graph = before ∨ p.graph = after) ∧ (∃ x, p.Names x) ∧
      ∃ t ∈ p.parentTokens, f.Reaches .both before.root.identity t.identity := by
  rcases parts_of_mem_places hp with hp | hp
  · obtain ⟨hg, j, hj, k, hjk⟩ := hp.exists_parent h.completeBefore.tree h.completeAfter.tree
    obtain ⟨x, ⟨t, ht, rfl⟩, -⟩ := matches_iff.1 hjk
    rw [← hg] at hj ht
    refine ⟨Or.inl hg, ?_, t, Place.mem_parentTokens_iff.2 ⟨j, hj, ht⟩, h.names_before_iff.1 ⟨j, t, by rw [← hg]; exact ht, rfl⟩⟩
    obtain ⟨u, hu⟩ := exists_token?_iff.2 (lt_size_of_mem_parents hj)
    exact ⟨u.identity, u, hu, rfl⟩
  · obtain ⟨hg, j, hj, k, hjk⟩ := hp.exists_parent h.completeAfter.tree h.completeBefore.tree
    obtain ⟨x, ⟨t, ht, rfl⟩, hk⟩ := matches_iff.1 hjk
    rw [← hg] at hj ht
    refine ⟨Or.inr hg, ?_, t, Place.mem_parentTokens_iff.2 ⟨j, hj, ht⟩, h.names_before_iff.1 ⟨k, hk⟩⟩
    obtain ⟨u, hu⟩ := exists_token?_iff.2 (lt_size_of_mem_parents hj)
    exact ⟨u.identity, u, hu, rfl⟩

/-- The graph of a place is complete and follows all parents. -/
theorem NewChild.complete_of_mem_places (h : NewChild f before after) (hp : p ∈ places before after) :
    p.graph.Complete f ∧ p.graph.search = .both := by
  rcases (h.exists_parent_of_mem_places hp).1 with hg | hg
  · rw [hg]
    exact ⟨h.completeBefore, h.searchBefore⟩
  · rw [hg]
    exact ⟨h.completeAfter, h.searchAfter⟩

/-- What a place names is reached from the child. -/
theorem NewChild.reaches_of_mem_places (h : NewChild f before after) (hp : p ∈ places before after) (hx : p.Names x) :
    f.Reaches .both after.root.identity x := by
  obtain ⟨g, i⟩ := p
  rcases (h.exists_parent_of_mem_places hp).1 with hg | hg
  · obtain rfl : g = before := hg
    exact (h.above_of_reaches (h.names_before_iff.1 ⟨i, hx⟩)).reaches
  · obtain rfl : g = after := hg
    exact h.names_after_iff.1 ⟨i, hx⟩

/-- From a top that both graphs have, the way of the child leaves the way of the parent. -/
theorem NewChild.exists_parted (h : NewChild f before after) (hi : i ∈ before.tops) (hj : j ∈ after.tops)
    (hm : Matches before after i j) :
    ∃ pre pre' k post post', after.chain j = pre ++ k :: post ∧ before.chain i = pre' ++ post' ∧
      List.Forall₂ (Matches after before) pre pre' ∧ Parts after before ⟨after, k⟩ := by
  obtain ⟨pre, pre', post, post', hL, hR, hpre, hhead, -⟩ := exists_shared after before (after.chain j) (before.chain i)
  cases post with
  | nil =>
    -- the way of the child would be part of the other, with the child at its end
    obtain ⟨way, hway⟩ := h.completeAfter.tree.exists_chain_eq (lt_size_of_mem_tops hj)
    have h0 : 0 ∈ pre := by
      rw [← List.append_nil pre, ← hL, hway]
      exact List.mem_append_right way (List.mem_singleton.2 rfl)
    obtain ⟨k, -, hk⟩ := exists_match_of_mem hpre h0
    obtain ⟨x, h0x, hkx⟩ := matches_iff.1 hk
    rw [h0x.unique ⟨after.root, h.completeAfter.tree.root, rfl⟩] at hkx
    exact absurd hkx h.not_names_before
  | cons k post =>
    exact ⟨pre, pre', k, post, post', hL, hR, hpre, j, hj,
      (partedAt_eq_some_iff h.completeBefore.tree).2 ⟨i, hi, hm.symm, hhead, rfl⟩⟩

/-- There is a place that counts. -/
theorem NewChild.exists_candidate (h : NewChild f before after) : ∃ p, p ∈ candidates before after := by
  obtain ⟨i, hi, j, hj, hm⟩ := h.exists_shared_top
  obtain ⟨pre, pre', k, post, post', hL, -, -, hk⟩ := h.exists_parted hi hj hm
  obtain ⟨t, ht⟩ := h.completeAfter.tree.exists_token_of_chain hj hL
  obtain ⟨q, hq, -⟩ := exists_mem_places (Or.inr hk) ⟨t, ht, rfl⟩
  refine exists_mem_uncovered h.acyclic (List.ne_nil_of_mem hq) fun p hp => ?_
  obtain ⟨hg, hsearch⟩ := h.complete_of_mem_places hp
  exact ⟨hg.toCharted, hsearch, (h.exists_parent_of_mem_places hp).2.1⟩

/-! ## What is found there -/

/-- Every token of the difference is a proper ancestor of the child. -/
theorem NewChild.above_of_mem_tokens (h : NewChild f before after) (ht : t ∈ tokens before after) :
    f.Above .both after.root.identity t.identity := by
  obtain ⟨p, hp, u, hu, hut⟩ := exists_mem_tokens_iff.1 ⟨t, ht, rfl⟩
  have hp := (mem_uncovered_iff.1 hp).1
  obtain ⟨hg, hsearch⟩ := h.complete_of_mem_places hp
  obtain ⟨j, hj, hju⟩ := Place.mem_parentTokens_iff.1 hu
  obtain ⟨v, hv⟩ := exists_token?_iff.2 (lt_size_of_mem_parents hj)
  obtain ⟨u', hu', hpar⟩ := hg.parent_of_mem_parents hv hj
  rw [hju] at hu'
  cases hu'
  rw [hsearch] at hpar
  rw [← hut]
  exact (h.reaches_of_mem_places hp ⟨v, hv, rfl⟩).trans_above hpar.above

/-- Some token of the difference is the parent or a proper ancestor of it. -/
theorem NewChild.exists_mem_tokens (h : NewChild f before after) :
    ∃ t ∈ tokens before after, f.Reaches .both before.root.identity t.identity := by
  obtain ⟨p, hp⟩ := h.exists_candidate
  obtain ⟨-, -, u, hu, hr⟩ := h.exists_parent_of_mem_places (mem_uncovered_iff.1 hp).1
  obtain ⟨t, ht, htu⟩ := exists_mem_tokens_iff.2 ⟨p, hp, u, hu, rfl⟩
  exact ⟨t, ht, by rwa [htu]⟩

/-! ## Building and posting -/

section Build

variable {σ : Type} [Sources σ] {c c' d d' : Context σ} {parent child : Token} {scope scope' : Scope}

/-- The graphs that are built of a parent and of its child. -/
theorem newChild_of_build {total : Prop} (hf : f.Acyclic .both) (hc : c.Faithful f total) (hd : d.Faithful f total)
    (hp : f.Parent .both child.identity parent.identity) (hb : build scope .both parent false c = (.ok before, c'))
    (ha : build scope' .both child false d = (.ok after, d')) : NewChild f before after := by
  obtain ⟨hbefore, -, hsb, hrb⟩ := complete_of_build hc hb
  obtain ⟨hafter, -, hsa, hra⟩ := complete_of_build hd ha
  exact ⟨hf, hbefore, hafter, hsb, hsa, by rw [hra, hrb]; exact hp⟩

/-- In stable contexts on sources that never fail and have no cycles, the difference between the graph of a parent and that of a child
of it is not empty, its tokens are proper ancestors of the child, and one of them is the parent or a proper ancestor of it. So a
refresher with the graph of the parent and a console that has not been asked for anything sends something that covers the parent. -/
theorem tokens_of_new_child (hf : f.Acyclic .both) (hc : c.Stable f) (hd : d.Stable f)
    (hp : f.Parent .both child.identity parent.identity) (hb : build scope .both parent false c = (.ok before, c'))
    (ha : build scope' .both child false d = (.ok after, d')) :
    tokens before after ≠ [] ∧ (∀ t ∈ tokens before after, f.Above .both child.identity t.identity) ∧
      (∃ t ∈ tokens before after, f.Reaches .both parent.identity t.identity) ∧
      ∀ (s : Refreshing σ) (id : String) (scope : Scope), s.refresher = ⟨before, id, some [], false⟩ → s.context.Stable f →
        ∃ n s', Refreshing.post scope child s = (.ok n, s') ∧ 0 < n ∧ s'.refresher.sent.length = n ∧
          ∃ t ∈ s'.refresher.sent, f.Reaches .both parent.identity t.identity := by
  have h := newChild_of_build hf hc hd hp hb ha
  obtain ⟨-, -, -, hrb⟩ := complete_of_build hc hb
  obtain ⟨-, -, -, hra⟩ := complete_of_build hd ha
  have hcover := h.exists_mem_tokens
  rw [hrb] at hcover
  refine ⟨?_, fun t ht => hra ▸ h.above_of_mem_tokens ht, hcover, fun s id scope hs hstable => ?_⟩
  · obtain ⟨t, ht, -⟩ := hcover
    exact List.ne_nil_of_mem ht
  · have hpost := Refreshing.post_spec scope child s ⟨hs, hstable⟩
    rcases hr : Refreshing.post scope child s with ⟨e | n, s'⟩
    · -- the graph of the child was built, so no ancestor of it is too far away
      rw [hr] at hpost
      obtain ⟨⟨n, x, hx, hn⟩, -⟩ := hpost
      exact absurd (distance_le_of_build hd ha hx) (Nat.not_le.2 hn)
    · rw [hr] at hpost
      obtain ⟨after', ⟨hcomplete, hsearch, hroot⟩, hn, hs', -⟩ := hpost
      have h' : NewChild f before after' :=
        ⟨hf, h.completeBefore, hcomplete, h.searchBefore, hsearch, by rw [hroot, hrb]; exact hp⟩
      obtain ⟨t, ht, hreach⟩ := h'.exists_mem_tokens
      have hsent : s'.refresher.sent = tokens before after' := by rw [hs']; rfl
      refine ⟨n, s', rfl, ?_, by rw [hsent, hn], t, by rw [hsent]; exact ht, hrb ▸ hreach⟩
      rw [hn]
      exact List.length_pos_of_mem ht

/-- A child of a page, with a second parent above the first: what is shown anew covers the page. -/
theorem tokens_of_new_child_hooked :
    let top := Token.element "page" "site" "1"
    let parent := Token.element "page" "site" "2"
    let child := Token.element "page" "site" "3"
    let l := (Listing.empty.add child parent).add parent top
    let h := Hooks.empty.add child top
    let c := Context.new (Catalog.ofTables l h) {}
    ∃ before after c' d', build none .both parent false c = (.ok before, c') ∧ build none .both child false c = (.ok after, d') ∧
      ∃ t ∈ tokens before after, (Ancestry.ofTables l h).Reaches .both parent.identity t.identity := by
  intro top parent child l h c
  have hf : (Ancestry.ofTables l h).Acyclic .both :=
    Ancestry.acyclic_ofTables (fun x => ["1", "2", "3"].idxOf x.id) (by decide +kernel) (by decide +kernel)
  have hc : c.Stable (Ancestry.ofTables l h) := Catalog.stable_ofTables l h {}
  have hp : (Ancestry.ofTables l h).Parent .both child.identity parent.identity :=
    Ancestry.parent_both_iff.2 ⟨.native, parent, by decide +kernel, rfl⟩
  have hok : ((build none .both parent false c).1.toOption.bind fun _ => (build none .both child false c).1.toOption.map
      fun _ => true) = some true := by decide +kernel
  obtain ⟨before, c', after, d', hb, ha, -⟩ := Act.exists_of_map₂_eq_some hok
  exact ⟨before, after, c', d', hb, ha, (tokens_of_new_child hf hc hc hp hb ha).2.2.1⟩

end Build

end Lineage.Difference
