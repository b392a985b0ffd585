import Lineage.Proofs.Difference.Chains
import Lineage.Proofs.Graph.Parallel
import Lineage.Proofs.Refresher.Once

/-!
# A fresh child below one parent

A child that has one parent, and is not reached from it, has the graph of the parent with one node put below it: the same ways down, each
one step longer (`Raised`). So from every top they part at the child, whatever cycles there are above, and what is shown anew is the
parent alone.
-/

namespace Lineage

open LevelGraph

namespace Difference

/-- The child of a node when one node was put below all others: the next one, or the new one for the old root. -/
def raised (c : Option Nat) : Option Nat := some (c.elim 0 (· + 1))

/-- The second graph is the first one with one node put below it. -/
structure Raised (before after : LevelGraph) : Prop where
  treeBefore : before.Tree
  treeAfter : after.Tree
  child : ∀ i < before.size, after.child? (i + 1) = raised (before.child? i)
  same : ∀ i < before.size, Matches before after i (i + 1)
  size : after.size = before.size + 1

variable {before after : LevelGraph} {i j : Nat} {p : Find} {qs : List Find}

/-- A graph is raised if its finds but the first are those of the other graph under raised numbers. -/
theorem raised_of_finds (hb : before.Tree) (ha : after.Tree) (hfinds : after.finds = p :: qs)
    (h : List.Forall₂ (Find.Shifted raised) before.finds qs) : Raised before after := by
  have hfind : ∀ i < before.size, ∃ p q, before.finds[i]? = some p ∧ after.finds[i + 1]? = some q ∧ Find.Shifted raised p q := by
    intro i hi
    rw [← length_finds] at hi
    obtain ⟨q, hq, hpq⟩ := Find.exists_getElem?_of_forall₂ h (List.getElem?_eq_getElem hi)
    exact ⟨_, q, List.getElem?_eq_getElem hi, by rw [hfinds, List.getElem?_cons_succ, hq], hpq⟩
  refine ⟨hb, ha, fun i hi => ?_, fun i hi => ?_, ?_⟩
  · obtain ⟨p, q, hp, hq, hpq⟩ := hfind i hi
    rw [child?_eq_finds, child?_eq_finds, hp, hq]
    exact hpq.child
  · obtain ⟨p, q, hp, hq, hpq⟩ := hfind i hi
    exact matches_of_finds hp hq hpq.identity
  · rw [← length_finds, ← length_finds, hfinds, List.length_cons, h.length_eq]

namespace Raised

/-! ## Ways and tops -/

theorem child?_root (h : Raised before after) : after.child? 1 = some 0 := by
  rw [h.child 0 h.treeBefore.size_pos, h.treeBefore.bottom]
  rfl

/-- A node of the first graph names the same as the next one of the second, and as no other. -/
theorem eq_of_matches (h : Raised before after) (hm : Matches before after i j) : j = i + 1 :=
  hm.unique h.treeAfter (h.same i hm.lt_size)

/-- A way down is the raised one, and goes on to the new root. -/
theorem chain_succ (h : Raised before after) (hi : i < before.size) : after.chain (i + 1) = (before.chain i).map (· + 1) ++ [0] := by
  refine h.treeBefore.climb (motive := fun i => after.chain (i + 1) = (before.chain i).map (· + 1) ++ [0]) ?_ (fun i c hc ih => ?_) hi
  · rw [h.treeAfter.chain_of_child h.child?_root, h.treeAfter.chain_root, h.treeBefore.chain_root]
    rfl
  · have hchild : after.child? (i + 1) = some (c + 1) := by
      rw [h.child i (lt_size_of_child? hc), hc]
      rfl
    rw [h.treeAfter.chain_of_child hchild, h.treeBefore.chain_of_child hc, ih]
    rfl

/-- The steps of a way down name the same as the raised ones. -/
theorem matches_chain (h : Raised before after) (hi : i < before.size) :
    List.Forall₂ (Matches before after) (before.chain i) ((before.chain i).map (· + 1)) := by
  rw [List.forall₂_map_right_iff, List.forall₂_same]
  exact fun k hk => h.same k (h.treeBefore.lt_size_of_mem_chain hi hk)

/-- The tops are the raised ones. -/
theorem mem_tops_iff (h : Raised before after) : j ∈ after.tops ↔ ∃ i ∈ before.tops, j = i + 1 := by
  rw [h.treeAfter.mem_tops_iff]
  constructor
  · rintro ⟨hj, hnone⟩
    cases j with
    | zero => exact absurd h.child?_root (hnone 1)
    | succ i =>
      rw [h.size] at hj
      refine ⟨i, h.treeBefore.mem_tops_iff.2 ⟨Nat.lt_of_succ_lt_succ hj, fun k hk => hnone (k + 1) ?_⟩, rfl⟩
      rw [h.child k (lt_size_of_child? hk), hk]
      rfl
  · rintro ⟨i, hi, rfl⟩
    obtain ⟨hi, hnone⟩ := h.treeBefore.mem_tops_iff.1 hi
    refine ⟨by rw [h.size]; exact Nat.succ_lt_succ hi, fun k hk => ?_⟩
    cases k with
    | zero =>
      rw [h.treeAfter.bottom] at hk
      cases hk
    | succ k =>
      have hlt := lt_size_of_child? hk
      rw [h.size] at hlt
      rw [h.child k (Nat.lt_of_succ_lt_succ hlt), raised] at hk
      cases hc : before.child? k with
      | none =>
        rw [hc] at hk
        cases hk
      | some c =>
        rw [hc] at hk
        cases hk
        exact hnone k hc

/-! ## Where the ways part -/

/-- The first graph never leaves the second. -/
theorem partedAt_before (h : Raised before after) (hi : i ∈ before.tops) : partedAt before after i = none := by
  have hlt := lt_size_of_mem_tops hi
  refine Option.eq_none_iff_forall_ne_some.2 fun p hp => ?_
  obtain ⟨j, -, hm, hparted, -⟩ := (partedAt_eq_some_iff h.treeAfter).1 hp
  obtain rfl := h.eq_of_matches hm
  have hnone := partedFrom_append (h.matches_chain hlt) [] [0]
  rw [List.append_nil, ← h.chain_succ hlt, hparted] at hnone
  cases hnone

/-- The second graph leaves the first one at its root, below every top. -/
theorem partedAt_after (h : Raised before after) (hj : j ∈ after.tops) : partedAt after before j = some ⟨after, 0⟩ := by
  obtain ⟨i, hi, rfl⟩ := h.mem_tops_iff.1 hj
  have hlt := lt_size_of_mem_tops hi
  refine (partedAt_eq_some_iff h.treeBefore).2 ⟨i, hi, (h.same i hlt).symm, ?_, rfl⟩
  have hsome := partedFrom_append ((h.matches_chain hlt).flip.imp fun _ _ hm => Matches.symm hm) [0] []
  rwa [List.append_nil, ← h.chain_succ hlt] at hsome

/-- What is shown anew are the parents that the new root found. -/
theorem tokens_eq (h : Raised before after) : tokens before after = Token.distinct (after.tokens (after.parents 0)) := by
  have hself : Place.same ⟨after, 0⟩ ⟨after, 0⟩ = true := Place.same_self h.treeAfter.root
  have htops : after.tops ≠ [] := by
    obtain ⟨j, hj⟩ := h.treeAfter.exists_mem_tops
    exact List.ne_nil_of_mem hj
  have hplaces : places before after = [⟨after, 0⟩] := by
    rw [places, addPlaces_eq_self fun _ => h.partedAt_before, addPlaces_eq_addPlace hself htops fun _ => h.partedAt_after]
    rfl
  rw [tokens, candidates, hplaces, uncovered_eq_self, List.flatMap_singleton]
  · rfl
  · intro p hp q hq _
    rw [List.mem_singleton.1 hp, List.mem_singleton.1 hq]
    exact hself

end Raised

/-! ## Building and posting -/

section Build

variable {σ : Type} [Sources σ] {f f₀ : Ancestry} {c c' d d' e₀ e x : Context σ} {parent child : Token} {scope scope' : Scope}
  {r : Refresher} {id : String}

section Fresh

variable (honly : ∀ y, f.Parent .both child.identity y ↔ y = parent.identity)
  (hnot : ¬f.Reaches .both parent.identity child.identity)
  (hoff : ∀ category y, y ≠ child.identity → f₀ category y = f category y) (hc : c.Stable f₀) (hd : d.Stable f)
  (hb : build scope .both parent false c = (.ok before, c')) (ha : build scope' .both child false d = (.ok after, d'))

include honly hnot hoff hc hd hb ha

/-- The graph of a child with one parent that does not lead back to it is the graph of the parent, raised. What was said of the child when
the graph of the parent was built does not matter. -/
theorem raised_of_build : Raised before after := by
  have hne : parent.identity ≠ child.identity := fun h => hnot (h ▸ Ancestry.Reaches.refl _)
  have hreached : ∀ y, f₀.Reaches .both parent.identity y → y ≠ child.identity := by
    rintro y hy rfl
    exact hnot (Ancestry.reaches_of_off hoff hnot hy)
  obtain ⟨p, hwave, hp, hchild⟩ := Ancestry.exists_wave_one_eq honly hne
  -- the survey of the child finds the parent in its first wave, where the other survey begins
  have hstart : Ancestry.Parallel f₀ f .both raised [] [⟨child, 0, .native, none⟩] parent child 0 1 := by
    refine ⟨⟨[], [], rfl, rfl, List.Forall₂.nil⟩, ?_⟩
    rw [hwave]
    exact List.Forall₂.cons ⟨hp, hchild⟩ List.Forall₂.nil
  have hagree : ∀ y, f₀.Reaches .both parent.identity y → ∀ b, f.onBranch b y = f₀.onBranch b y := fun y hy b =>
    (Ancestry.onBranch_congr (fun category => hoff category y (hreached y hy)) b).symm
  have hnew : ∀ y, f₀.Above .both parent.identity y → y ∉ [] ∧ y ∉ [child.identity] := fun y hy =>
    ⟨List.not_mem_nil, fun hmem => hreached y hy.reaches (List.mem_singleton.1 hmem)⟩
  have hrun : ∀ n, Ancestry.Parallel f₀ f .both raised [] [⟨child, 0, .native, none⟩] parent child (0 + n) (1 + n) :=
    hstart.add (fun _ => rfl) rfl hagree hnew
  obtain ⟨ps, qs, hps, hqs, hpq⟩ := exists_finds_of_parallel hc hd hb ha hrun
  refine raised_of_finds (complete_of_build hc hb).1.tree (complete_of_build hd ha).1.tree hqs ?_
  rwa [hps]

/-- So what is shown anew is the parent alone. -/
theorem exists_tokens_eq : ∃ t, tokens before after = [t] ∧ t.same parent = true := by
  have hne : parent.identity ≠ child.identity := fun h => hnot (h ▸ Ancestry.Reaches.refl _)
  obtain ⟨p, hwave, hp, -⟩ := Ancestry.exists_wave_one_eq honly hne
  refine ⟨p.token, ?_, Token.same_iff.2 hp⟩
  rw [(raised_of_build honly hnot hoff hc hd hb ha).tokens_eq, tokens_parents_of_build hd ha, hwave]
  rfl

end Fresh

/-- A refresher has the graph that was built when it was made, and the context is as stable as before. -/
theorem exists_build_of_new {console : Bool} (he₀ : e₀.Stable f₀) (h : Refresher.new scope id console parent e₀ = (.ok r, e)) :
    (∃ e₁ : Context σ, e₁.Stable f₀ ∧ build scope .both parent false e₁ = (.ok r.before, e)) ∧ e.Stable f₀ := by
  obtain ⟨_, e₁, hemit, h⟩ := Act.exists_of_bind_eq_ok h
  obtain ⟨before, e₂, hb, h⟩ := Act.exists_of_bind_eq_ok h
  cases h
  have he₁ := ((Context.emit_spec (Refresher.capturingEvent id parent)).of_ok he₀ hemit).2
  exact ⟨⟨e₁, he₁, hb⟩, (keeps_build scope .both parent false).of_eq he₁ hb⟩

/-- A cache without answers about a child holds what is said now if it holds what was said before of everything else. -/
theorem holds_of_off {cache : Cache} (hoff : ∀ category y, y ≠ child.identity → f₀ category y = f category y) (h : cache.Holds f₀)
    (hnone : ∀ b user, (cache.shelf b).entries.find? ⟨user, child.identity⟩ = none) : cache.Holds f := by
  rintro b ⟨user, y⟩ entry hentry
  have hy : y ≠ child.identity := by
    rintro rfl
    rw [hnone] at hentry
    cases hentry
  rw [h b ⟨user, y⟩ entry hentry, Ancestry.onBranch_congr fun category => hoff category y hy]

/-- In stable contexts on sources that never fail, cycles or not, a child that has one parent, named once or more, and is not reached from
it makes a difference of exactly that parent. A refresher that took the graph of the parent when other things were said of the child, and
posts the child in a context where answers from that time may be cached but none about the child, sends one message, for the parent. -/
theorem tokens_of_fresh_child (honly : ∀ y, f.Parent .both child.identity y ↔ y = parent.identity)
    (hnot : ¬f.Reaches .both parent.identity child.identity) (hc : c.Stable f) (hd : d.Stable f)
    (hb : build scope .both parent false c = (.ok before, c')) (ha : build scope' .both child false d = (.ok after, d')) :
    (∃ t, (∀ x : Context σ, (find before after x).1 = .ok [t]) ∧ t.same parent = true) ∧
    ∀ (f₀ : Ancestry) (e₀ e : Context σ) (scope₀ : Scope) (id : String) (r : Refresher),
      (∀ category y, y ≠ child.identity → f₀ category y = f category y) → e₀.Stable f₀ →
      Refresher.new scope₀ id true parent e₀ = (.ok r, e) →
      e.cache.Holds f₀ ∧ ∀ (x : Context σ) (scope₁ : Scope), x.cache.Holds f₀ →
        (∀ b user, (x.cache.shelf b).entries.find? ⟨user, child.identity⟩ = none) →
        Sources.Agree f x.sources → Sources.Answering x.sources →
        ∃ t s, Refreshing.post scope₁ child ⟨r, x⟩ = (.ok 1, s) ∧ s.refresher.sent = [t] ∧ t.same parent = true := by
  refine ⟨?_, fun f₀ e₀ e scope₀ id r hoff he₀ hnew => ?_⟩
  · obtain ⟨t, ht, hsame⟩ := exists_tokens_eq honly hnot (fun _ _ _ => rfl) hc hd hb ha
    exact ⟨t, fun _ => congrArg Except.ok ht, hsame⟩
  obtain ⟨⟨e₁, he₁, hbefore⟩, he⟩ := exists_build_of_new he₀ hnew
  obtain ⟨hposted, hconsole⟩ := Refreshing.unused_of_new hnew
  refine ⟨he.holds, fun x scope₁ hholds hnone hagree hanswering => ?_⟩
  have hx : (Refreshing.begun r child x).Stable f :=
    Context.Faithful.log ⟨hagree, holds_of_off hoff hholds hnone, fun _ => hanswering⟩ _
  obtain ⟨n, s, hr, after', x', hafter, hn, hs, -⟩ | ⟨error, s, -, x', hfail, -⟩ :=
    (Refreshing.first_post_spec scope₁ child hposted x).outcome rfl
  · obtain ⟨t, ht, hsame⟩ := exists_tokens_eq honly hnot hoff he₁ hx hbefore hafter
    rw [ht] at hn hs
    have hone : n = 1 := by rw [hn, Refresher.sends, hconsole]; rfl
    refine ⟨t, s, by rw [hr, hone], ?_, hsame⟩
    rw [hs, Refresher.receive, hconsole]
    rfl
  · -- the graph of the child was built elsewhere, so it is not too deep
    obtain ⟨⟨-, hdeep⟩, -⟩ := (build_stage f scope₁ .both child).of_error hx hfail
    obtain ⟨⟨-, hwave⟩, -⟩ := (build_stage f scope' .both child).of_ok hd ha
    exact absurd hwave hdeep

/-- A page and one above it that are each other's parents. A child that is listed and hooked below the page is shown by the page alone, and
so it is where the page was looked at before, with the answers of then in the cache. -/
theorem tokens_of_fresh_child_loop :
    let above := Token.element "page" "site" "1"
    let parent := Token.element "page" "site" "2"
    let child := Token.element "page" "site" "3"
    let l := Listing.empty.add parent above
    let h := Hooks.empty.add above parent
    let f := Ancestry.ofTables (l.add child parent) (h.add child parent)
    let f₀ := Ancestry.ofTables l h
    let sources := Catalog.ofTables (l.add child parent) (h.add child parent)
    let x := Context.new sources {}
    let x₀ := Context.new (Catalog.ofTables l h) {}
    x.Stable f ∧ x₀.Stable f₀ ∧ f.parents .both child.identity = [parent, parent] ∧ f.Above .both parent.identity parent.identity ∧
      ∃ before c' after d', build (some "user") .both parent false x = (.ok before, c') ∧
      build (some "user") .both child false x = (.ok after, d') ∧
      (∃ t, (find before after d').1 = .ok [t] ∧ t.same parent = true) ∧
      ∃ r e, Refresher.new (some "user") "r" true parent x₀ = (.ok r, e) ∧ (e.cache.shelf .native).entries.size = 2 ∧
        ∃ t s, Refreshing.post (some "user") child ⟨r, { e with sources }⟩ = (.ok 1, s) ∧
          s.refresher.sent = [t] ∧ t.same parent = true := by
  intro above parent child l h f f₀ sources x x₀
  have hx : x.Stable f := Catalog.stable_ofTables _ _ {}
  have hx₀ : x₀.Stable f₀ := Catalog.stable_ofTables l h {}
  have hparents : f.parents .both child.identity = [parent, parent] := by decide +kernel
  have honly : ∀ y, f.Parent .both child.identity y ↔ y = parent.identity := fun y => by
    rw [Ancestry.Parent, hparents]
    simp [eq_comm]
  have hloop : f.Above .both parent.identity parent.identity :=
    ⟨1, ((Ancestry.Chain.refl _).snoc ⟨above, by decide +kernel, rfl⟩).snoc ⟨parent, by decide +kernel, rfl⟩⟩
  have hwithin : ∀ y ∈ [parent.identity, above.identity], ∀ t ∈ f.parents .both y, t.identity ∈ [parent.identity, above.identity] := by
    decide +kernel
  have hnot : ¬f.Reaches .both parent.identity child.identity := fun hreach =>
    absurd (Ancestry.mem_of_reaches hwithin List.mem_cons_self hreach) (by decide)
  have hoff : ∀ category y, y ≠ child.identity → f₀ category y = f category y := by
    intro category y hy
    cases category with
    | native => exact ((Table.find?_set _ _ _ _).trans (if_neg hy)).symm
    | auxiliary => rfl
    | hooking => exact ((Table.find?_set _ _ _ _).trans (if_neg hy)).symm
  have hbuilt : ((build (some "user") .both parent false x).1.toOption.bind fun _ =>
      (build (some "user") .both child false x).1.toOption.map fun _ => true) = some true := by decide +kernel
  have hmade : ((Refresher.new (some "user") "r" true parent x₀).1.toOption.map fun _ => true) = some true := by decide +kernel
  have hcached : ∀ b ∈ [Branch.native, .hooked], ∀ k ∈ ((Refresher.new (some "user") "r" true parent x₀).2.cache.shelf b).entries.keys,
      k.identity ≠ child.identity := by decide +kernel
  have hsize : ((Refresher.new (some "user") "r" true parent x₀).2.cache.shelf .native).entries.size = 2 := by decide +kernel
  obtain ⟨before, c', after, d', hb, ha, -⟩ := Act.exists_of_map₂_eq_some hbuilt
  obtain ⟨r, e, hr, -⟩ := Act.exists_of_map_eq_some hmade
  rw [hr] at hcached hsize
  obtain ⟨⟨t, ht, hsame⟩, hrefresh⟩ := tokens_of_fresh_child honly hnot hx hx hb ha
  obtain ⟨hholds, hpost⟩ := hrefresh f₀ x₀ e (some "user") "r" r hoff hx₀ hr
  have hnone : ∀ b user, (e.cache.shelf b).entries.find? ⟨user, child.identity⟩ = none := fun b user =>
    Table.find?_eq_none_iff.2 fun hmem => hcached b (by cases b <;> decide) _ hmem rfl
  exact ⟨hx, hx₀, hparents, hloop, before, c', after, d', hb, ha, ⟨t, ht d', hsame⟩, r, e, hr, hsize,
    hpost { e with sources } (some "user") hholds hnone hx.agree (hx.answering trivial)⟩

end Build

end Difference
end Lineage
