import Lineage.Proofs.Difference.Chains
import Lineage.Proofs.Graph.Parallel

/-!
# Exchanged roots

Two objects of which the same is said, and which are not above themselves or each other, have one and the same graph but for the root
(`Exchanged`). All ways down are the same up to the last step, so the graphs part at their roots and nowhere else, and what is shown anew
are the parents that both roots have. If the objects are one, nothing is shown anew.
-/

namespace Lineage

open LevelGraph

namespace Difference

/-- Two graphs differ at most in what their roots name. -/
structure Exchanged (left right : LevelGraph) : Prop where
  treeLeft : left.Tree
  treeRight : right.Tree
  size : right.size = left.size
  child : ∀ i, right.child? i = left.child? i
  same : ∀ i, 0 < i → i < left.size → Matches left right i i

variable {left right : LevelGraph} {i j top : Nat} {p q : Find} {ps qs : List Find}

/-- Two graphs are exchanged if their finds but the first correspond under the same numbers. -/
theorem exchanged_of_finds (hl : left.Tree) (hr : right.Tree) (hleft : left.finds = p :: ps) (hright : right.finds = q :: qs)
    (h : List.Forall₂ (Find.Shifted id) ps qs) : Exchanged left right := by
  have hsize : right.size = left.size := by
    rw [← length_finds, ← length_finds, hleft, hright, List.length_cons, List.length_cons, h.length_eq]
  have hfind : ∀ i, i + 1 < left.size →
      ∃ p q, left.finds[i + 1]? = some p ∧ right.finds[i + 1]? = some q ∧ Find.Shifted id p q := by
    intro i hi
    rw [← length_finds, hleft, List.length_cons] at hi
    have hp := List.getElem?_eq_getElem (Nat.lt_of_succ_lt_succ hi)
    obtain ⟨q, hq, hpq⟩ := Find.exists_getElem?_of_forall₂ h hp
    exact ⟨_, q, by rw [hleft, List.getElem?_cons_succ, hp], by rw [hright, List.getElem?_cons_succ, hq], hpq⟩
  refine ⟨hl, hr, hsize, fun i => ?_, fun i hpos hi => ?_⟩
  · cases i with
    | zero => rw [hl.bottom, hr.bottom]
    | succ i =>
      by_cases hi : i + 1 < left.size
      · obtain ⟨p, q, hp, hq, hpq⟩ := hfind i hi
        rw [child?_eq_finds, child?_eq_finds, hp, hq]
        exact hpq.child
      · rw [child?, child?, node?_eq_none_iff.2 (Nat.le_of_not_lt hi), node?_eq_none_iff.2 (by omega)]
  · obtain ⟨i, rfl⟩ := Nat.exists_eq_add_one_of_ne_zero hpos.ne'
    obtain ⟨p, q, hp, hq, hpq⟩ := hfind i hi
    exact matches_of_finds hp hq hpq.identity

namespace Exchanged

theorem symm (h : Exchanged left right) : Exchanged right left :=
  ⟨h.treeRight, h.treeLeft, h.size.symm, fun i => (h.child i).symm, fun i hpos hi => (h.same i hpos (h.size ▸ hi)).symm⟩

/-! ## What the graphs have in common -/

theorem parents_eq (h : Exchanged left right) (i : Nat) : right.parents i = left.parents i := by
  rw [h.treeRight.parents_eq, h.treeLeft.parents_eq, ids, ids, h.size]
  simp only [h.child]

theorem tops_eq (h : Exchanged left right) : right.tops = left.tops := by
  rw [tops, tops, ids, ids, h.size]
  simp only [h.parents_eq]

/-- A node names the same as the node of the other graph with its number at most, and does so unless both are roots. -/
theorem eq_of_matches (h : Exchanged left right) (hm : Matches left right i j) : i = j := by
  rcases Nat.eq_zero_or_pos i with rfl | hi
  · rcases Nat.eq_zero_or_pos j with rfl | hj
    · rfl
    · exact hm.symm.unique h.treeLeft (h.symm.same j hj hm.symm.lt_size)
  · exact (h.same i hi hm.lt_size).unique h.treeRight hm

/-- Both ways down from a node are the same and name the same, up to the roots. -/
theorem exists_chain_eq (h : Exchanged left right) (hi : i < left.size) :
    ∃ pre, left.chain i = pre ++ [0] ∧ right.chain i = pre ++ [0] ∧ List.Forall₂ (Matches left right) pre pre := by
  refine h.treeLeft.climb (motive := fun i => ∃ pre, left.chain i = pre ++ [0] ∧ right.chain i = pre ++ [0] ∧
    List.Forall₂ (Matches left right) pre pre) ?_ (fun i c hc ih => ?_) hi
  · exact ⟨[], h.treeLeft.chain_root, h.treeRight.chain_root, List.Forall₂.nil⟩
  · obtain ⟨pre, hl, hr, hpre⟩ := ih
    have hsame := h.same i (Nat.zero_lt_of_lt (h.treeLeft.lt_of_child? hc)) (lt_size_of_child? hc)
    refine ⟨i :: pre, ?_, ?_, List.Forall₂.cons hsame hpre⟩
    · rw [h.treeLeft.chain_of_child hc, hl, List.cons_append]
    · rw [h.treeRight.chain_of_child ((h.child i).trans hc), hr, List.cons_append]

/-- The ways down from a node part at the roots, if these name different objects. -/
theorem partedFrom_chain (h : Exchanged left right) (hi : i < left.size) :
    partedFrom left right (left.chain i) (right.chain i) = if Matches left right 0 0 then none else some 0 := by
  obtain ⟨pre, hl, hr, hpre⟩ := h.exists_chain_eq hi
  rw [hl, hr, partedFrom_append hpre]
  rfl

/-! ## One object -/

/-- If the roots name one object, the graphs part nowhere. -/
theorem partedAt_eq_none (h : Exchanged left right) (hroot : Matches left right 0 0) (htop : top ∈ left.tops) :
    partedAt left right top = none := by
  refine Option.eq_none_iff_forall_ne_some.2 fun p hp => ?_
  obtain ⟨other, -, hm, hparted, -⟩ := (partedAt_eq_some_iff h.treeRight).1 hp
  obtain rfl := h.eq_of_matches hm
  rw [h.partedFrom_chain (lt_size_of_mem_tops htop), if_pos hroot] at hparted
  cases hparted

/-- So nothing is shown anew. -/
theorem tokens_eq_nil (h : Exchanged left right) (hroot : Matches left right 0 0) : tokens left right = [] := by
  have hplaces : places left right = [] := by
    rw [places, addPlaces_eq_self fun _ => h.symm.partedAt_eq_none hroot.symm, addPlaces_eq_self fun _ => h.partedAt_eq_none hroot]
  rw [tokens, candidates, hplaces]
  rfl

/-! ## Two objects -/

/-- One graph leaves the other at its root only. -/
theorem eq_of_parts (h : Exchanged left right) {p : Place} (hp : Parts left right p) : p = ⟨left, 0⟩ := by
  obtain ⟨g, k⟩ := p
  obtain ⟨top, htop, hp⟩ := hp
  obtain ⟨other, -, hm, hparted, hg⟩ := (partedAt_eq_some_iff h.treeRight).1 hp
  obtain rfl := h.eq_of_matches hm
  obtain rfl : g = left := hg
  rw [h.partedFrom_chain (lt_size_of_mem_tops htop)] at hparted
  split at hparted
  · cases hparted
  · exact congrArg (Place.mk g) (Option.some.inj hparted).symm

/-- Below every top but the root, one graph leaves the other at its root if the roots name different objects. -/
theorem partedAt_eq_root (h : Exchanged left right) (hroot : ¬Matches left right 0 0) (hpos : 0 < top) (htop : top ∈ left.tops) :
    partedAt left right top = some ⟨left, 0⟩ := by
  have hlt := lt_size_of_mem_tops htop
  refine (partedAt_eq_some_iff h.treeRight).2 ⟨top, h.tops_eq ▸ htop, h.same top hpos hlt, ?_, rfl⟩
  rw [h.partedFrom_chain hlt, if_neg hroot]

/-- A root that does not name the other one is not above it either. -/
theorem not_covers (h : Exchanged left right) : Place.covers ⟨left, 0⟩ ⟨right, 0⟩ ≠ true := by
  intro hcovers
  obtain ⟨k, hk, hm⟩ := Place.covers_iff.1 hcovers
  exact ((Place.mem_above_iff h.treeRight).1 hk).2.1 (h.eq_of_matches hm).symm

/-- The places are the two roots, if they name different objects and have parents. -/
theorem places_eq (h : Exchanged left right) (hroot : ¬Matches left right 0 0) (hne : left.parents 0 ≠ []) :
    places left right = [⟨left, 0⟩, ⟨right, 0⟩] := by
  have htops : left.tops ≠ [] := by
    obtain ⟨top, htop⟩ := h.treeLeft.exists_mem_tops
    exact List.ne_nil_of_mem htop
  have hpos : ∀ top ∈ left.tops, 0 < top := fun top htop => Nat.pos_of_ne_zero fun h0 =>
    hne (List.isEmpty_iff.1 (h0 ▸ (List.mem_filter.1 htop).2))
  have hleft : addPlaces left right [] = [⟨left, 0⟩] :=
    addPlaces_eq_addPlace (Place.same_self h.treeLeft.root) htops fun top htop => h.partedAt_eq_root hroot (hpos top htop) htop
  have hright : addPlaces right left [⟨left, 0⟩] = addPlace [⟨left, 0⟩] ⟨right, 0⟩ :=
    addPlaces_eq_addPlace (Place.same_self h.treeRight.root) (h.tops_eq ▸ htops) fun top htop =>
      h.symm.partedAt_eq_root (fun hm => hroot hm.symm) (hpos top (h.tops_eq ▸ htop)) htop
  rw [places, hleft, hright]
  exact if_neg (by simpa [Matches] using hroot)

/-- The roots found parents of the same objects. -/
theorem exists_mem_tokens_parents (h : Exchanged left right) :
    ∀ u ∈ right.tokens (right.parents 0), ∃ t ∈ left.tokens (left.parents 0), t.identity = u.identity := by
  intro u hu
  obtain ⟨k, hk, hu⟩ := List.mem_filterMap.1 hu
  have hchild := (h.treeRight.linked 0 k).1 hk
  obtain ⟨x, ⟨t, ht, rfl⟩, hx⟩ := matches_iff.1 (h.same k (h.treeRight.lt_of_child? hchild) (h.size ▸ lt_size_of_child? hchild))
  exact ⟨t, List.mem_filterMap.2 ⟨k, h.parents_eq 0 ▸ hk, ht⟩, hx.unique ⟨u, hu, rfl⟩⟩

/-- If the roots name different objects, what is shown anew are the parents that they found. -/
theorem tokens_eq (h : Exchanged left right) (hroot : ¬Matches left right 0 0) :
    tokens left right = Token.distinct (left.tokens (left.parents 0)) := by
  by_cases hparents : left.parents 0 = []
  · -- roots without parents are the only nodes, and then the graphs have no top in common
    have hnone : (candidates left right).flatMap Place.parentTokens = [] := by
      refine List.flatMap_eq_nil_iff.2 fun p hp => ?_
      rcases parts_of_mem_places (mem_uncovered_iff.1 hp).1 with hp | hp
      · rw [h.eq_of_parts hp, Place.parentTokens, hparents]
        rfl
      · rw [h.symm.eq_of_parts hp, Place.parentTokens, h.parents_eq, hparents]
        rfl
    rw [tokens, hnone, hparents]
    rfl
  · have hplaces := h.places_eq hroot hparents
    have hcandidates : candidates left right = [⟨left, 0⟩, ⟨right, 0⟩] := by
      rw [candidates, hplaces]
      refine uncovered_eq_self fun p hp q hq hcovers => ?_
      simp only [List.mem_cons, List.not_mem_nil, or_false] at hp hq
      rcases hp with rfl | rfl <;> rcases hq with rfl | rfl
      · exact Place.same_self h.treeLeft.root
      · exact absurd hcovers h.symm.not_covers
      · exact absurd hcovers h.not_covers
      · exact Place.same_self h.treeRight.root
    rw [tokens, hcandidates, List.flatMap_cons, List.flatMap_singleton]
    exact Token.distinct_append h.exists_mem_tokens_parents

end Exchanged

/-! ## Building -/

section Build

variable {σ : Type} [Sources σ] {f : Ancestry} {c c' d d' : Context σ} {a b : Token} {scope scope' : Scope} {before after : LevelGraph}

/-- The graphs of two objects of which the same is said, none of them above the first one, are exchanged. -/
theorem exchanged_of_build (hc : c.Stable f) (hd : d.Stable f)
    (hsame : ∀ branch, ((f.onBranch branch b.identity).getD []).map Token.identity =
      ((f.onBranch branch a.identity).getD []).map Token.identity)
    (ha : ¬f.Above .both a.identity a.identity) (hb : ¬f.Above .both a.identity b.identity)
    (hbefore : build scope .both a false c = (.ok before, c')) (hafter : build scope' .both b false d = (.ok after, d')) :
    Exchanged before after := by
  have hnew : ∀ y, f.Above .both a.identity y → y ∉ [a.identity] ∧ y ∉ [b.identity] := fun y hy =>
    ⟨fun hmem => ha (List.mem_singleton.1 hmem ▸ hy), fun hmem => hb (List.mem_singleton.1 hmem ▸ hy)⟩
  have hstart : Ancestry.Parallel f f .both id [⟨a, 0, .native, none⟩] [⟨b, 0, .native, none⟩] a b 1 1 := by
    refine ⟨⟨[], [], rfl, rfl, List.Forall₂.nil⟩, ?_⟩
    rw [Ancestry.wave_one, Ancestry.wave_one]
    refine Find.forall₂_fresh (fun _ _ hpq => hpq.identity) (Ancestry.forall₂_named (d := 0) (fun _ => rfl) ?_ 0) fun p hp => ?_
    · exact List.Forall₂.cons hsame List.Forall₂.nil
    · obtain ⟨hpa, hpb⟩ := hnew _ (Ancestry.above_of_mem_named (fun _ => Ancestry.reaches_of_mem_wave) hp)
      exact ⟨fun h => absurd h hpa, fun h => absurd h hpb⟩
  have hrun : ∀ n, Ancestry.Parallel f f .both id [⟨a, 0, .native, none⟩] [⟨b, 0, .native, none⟩] a b (1 + n) (1 + n) :=
    hstart.add (d := 0) (fun _ => rfl) rfl (fun _ _ _ => rfl) hnew
  obtain ⟨ps, qs, hps, hqs, hpq⟩ := exists_finds_of_parallel hc hd hbefore hafter hrun
  exact exchanged_of_finds (complete_of_build hc hbefore).1.tree (complete_of_build hd hafter).1.tree hps hqs hpq

/-- In stable contexts on sources that never fail, whatever cycles there are, let two objects get the same answers, and let neither be among
their parents or be reached from these. If they are two, the difference of their graphs names exactly the parents, each once and in the
order of the answers, the native one before the merged one, and nothing above them. If they are one, it names nothing. -/
theorem tokens_of_exchanged_roots (hc : c.Stable f) (hd : d.Stable f)
    (hsame : ∀ branch, ((f.onBranch branch a.identity).getD []).map Token.identity =
      ((f.onBranch branch b.identity).getD []).map Token.identity)
    (hnot : ∀ y, f.Parent .both a.identity y → ¬f.Reaches .both y a.identity ∧ ¬f.Reaches .both y b.identity)
    (hbefore : build scope .both a false c = (.ok before, c')) (hafter : build scope' .both b false d = (.ok after, d')) :
    (a.identity ≠ b.identity → ∀ x : Context σ, (find before after x).1 = .ok (Token.distinct (f.parents .both a.identity))) ∧
      (a.identity = b.identity → ∀ x : Context σ, (find before after x).1 = .ok []) := by
  have hselfless : ¬f.Above .both a.identity a.identity := fun h => by
    obtain ⟨y, hy, hreach⟩ := h.first
    exact (hnot y hy).1 hreach
  have hother : ¬f.Above .both a.identity b.identity := fun h => by
    obtain ⟨y, hy, hreach⟩ := h.first
    exact (hnot y hy).2 hreach
  have h := exchanged_of_build hc hd (fun branch => (hsame branch).symm) hselfless hother hbefore hafter
  have hroot : Matches before after 0 0 ↔ a.identity = b.identity := by
    rw [← (complete_of_build hc hbefore).2.2.2, ← (complete_of_build hd hafter).2.2.2]
    exact Place.same_iff_of_tokens h.treeLeft.root h.treeRight.root
  refine ⟨fun hne x => ?_, fun heq x => ?_⟩
  · have htokens := h.tokens_eq (mt hroot.1 hne)
    rw [tokens_parents_of_build hc hbefore, Ancestry.tokens_wave_one (fun hp => hselfless hp.above),
      Token.distinct_eq_self (Token.nodup_distinct _)] at htokens
    exact congrArg Except.ok htokens
  · exact congrArg Except.ok (h.tokens_eq_nil (hroot.2 heq))

/-- Two pages with the same three parents, some of them named twice. Of these the first is above itself, and the second is above the third.
The pages differ in the three parents, and a page does not differ from itself. -/
theorem tokens_of_exchanged_roots_loop :
    let a := Token.element "page" "site" "1"
    let b := Token.element "page" "site" "2"
    let p := Token.element "page" "site" "3"
    let q := Token.element "page" "site" "4"
    let r := Token.element "page" "site" "5"
    let top := Token.element "page" "site" "6"
    let l := ((((Listing.empty.put a [p, q, p]).put b [p, q, p]).add p top).add q top).add top p
    let h := ((((Hooks.empty.add a q).add a r).add b q).add b r).add r q
    let f := Ancestry.ofTables l h
    let x := Context.new (Catalog.ofTables l h) {}
    x.Stable f ∧ f.parents .both a.identity = [p, q, p, q, r] ∧ f.Above .both p.identity p.identity ∧
      ∃ before c' after d', build (some "user") .both a false x = (.ok before, c') ∧
        build (some "user") .both b false x = (.ok after, d') ∧
        (find before after d').1 = .ok [p, q, r] ∧ (find before before c').1 = .ok [] := by
  intro a b p q r top l h f x
  have hx : x.Stable f := Catalog.stable_ofTables l h {}
  have hparents : f.parents .both a.identity = [p, q, p, q, r] := by decide +kernel
  have hdistinct : Token.distinct [p, q, p, q, r] = [p, q, r] := by decide +kernel
  have hloop : f.Above .both p.identity p.identity :=
    ⟨1, ((Ancestry.Chain.refl _).snoc ⟨top, by decide +kernel, rfl⟩).snoc ⟨p, by decide +kernel, rfl⟩⟩
  have hsame : ∀ branch, ((f.onBranch branch a.identity).getD []).map Token.identity =
      ((f.onBranch branch b.identity).getD []).map Token.identity := by
    intro branch
    cases branch <;> decide +kernel
  have hwithin : ∀ y ∈ [p.identity, q.identity, r.identity, top.identity], ∀ t ∈ f.parents .both y,
      t.identity ∈ [p.identity, q.identity, r.identity, top.identity] := by decide +kernel
  have hnot : ∀ y, f.Parent .both a.identity y → ¬f.Reaches .both y a.identity ∧ ¬f.Reaches .both y b.identity := by
    rintro y ⟨t, ht, rfl⟩
    have hmem : t.identity ∈ [p.identity, q.identity, r.identity, top.identity] := by
      rw [hparents] at ht
      revert t
      decide +kernel
    exact ⟨fun hreach => absurd (Ancestry.mem_of_reaches hwithin hmem hreach) (by decide),
      fun hreach => absurd (Ancestry.mem_of_reaches hwithin hmem hreach) (by decide)⟩
  have hbuilt : ((build (some "user") .both a false x).1.toOption.bind fun _ =>
      (build (some "user") .both b false x).1.toOption.map fun _ => true) = some true := by decide +kernel
  obtain ⟨before, c', after, d', hbefore, hafter, -⟩ := Act.exists_of_map₂_eq_some hbuilt
  refine ⟨hx, hparents, hloop, before, c', after, d', hbefore, hafter, ?_, ?_⟩
  · rw [(tokens_of_exchanged_roots hx hx hsame hnot hbefore hafter).1 (by decide), hparents, hdistinct]
  · exact (tokens_of_exchanged_roots hx hx (fun _ => rfl) (fun y hy => ⟨(hnot y hy).1, (hnot y hy).1⟩) hbefore hbefore).2 rfl c'

end Build

end Difference
end Lineage
