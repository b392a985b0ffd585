import Lineage.Graph.Difference
import Lineage.Proofs.Graph.Shortest
import Lineage.Proofs.Graph.Survey
import Mathlib.Data.List.Forall2

/-!
# Ways down a graph, and where they part

The way down from a node of a tree is the node and then the way down from its child, so it ends at the root, and each of its steps
leads to the child. Where the ways down from one top of two graphs part, the steps before are the same in both graphs.
-/

namespace Lineage

namespace LevelGraph

variable {f : Ancestry} {g : LevelGraph} {i j c m n : Nat} {t u : Token} {pre post : List Nat}

/-! ## The way down from a node -/

/-- A way down does not depend on how many steps it may have, if these are enough. -/
theorem Tree.chainWithin_eq (h : g.Tree) (hm : i ≤ m) (hn : i ≤ n) : g.chainWithin m i = g.chainWithin n i := by
  induction i using Nat.strongRecOn generalizing m n with
  | _ i ih =>
    cases hc : g.child? i with
    | none => cases m <;> cases n <;> simp only [chainWithin, hc]
    | some c =>
      have hlt := h.lt_of_child? hc
      cases m with
      | zero => omega
      | succ m =>
        cases n with
        | zero => omega
        | succ n =>
          simp only [chainWithin, hc]
          exact congrArg (i :: ·) (ih c hlt (by omega) (by omega))

/-- The way down from a node begins with it. -/
theorem exists_chain_eq_cons (g : LevelGraph) (i : Nat) : ∃ is, g.chain i = i :: is := by
  rw [chain]
  cases g.size with
  | zero => exact ⟨[], rfl⟩
  | succ n =>
    simp only [chainWithin]
    split
    · exact ⟨_, rfl⟩
    · exact ⟨[], rfl⟩

/-- The way down from a node is the node and then the way down from its child. -/
theorem Tree.chain_of_child (h : g.Tree) (hc : g.child? i = some c) : g.chain i = i :: g.chain c := by
  have hlt := h.lt_of_child? hc
  have hi := lt_size_of_child? hc
  rw [chain, h.chainWithin_eq (n := g.size + 1) (by omega) (by omega)]
  simp only [chainWithin, hc]
  rfl

/-- The way down from the root is the root. -/
theorem Tree.chain_root (h : g.Tree) : g.chain 0 = [0] := by
  rw [chain, h.chainWithin_eq (n := 1) (Nat.zero_le _) (Nat.zero_le _)]
  simp only [chainWithin, h.bottom]

/-- A way down ends at the root. -/
theorem Tree.exists_chain_eq (h : g.Tree) (hi : i < g.size) : ∃ pre, g.chain i = pre ++ [0] := by
  refine h.climb (motive := fun i => ∃ pre, g.chain i = pre ++ [0]) ⟨[], h.chain_root⟩ (fun i c hc ih => ?_) hi
  obtain ⟨pre, hpre⟩ := ih
  exact ⟨i :: pre, by rw [h.chain_of_child hc, hpre, List.cons_append]⟩

/-- All steps of a way down are nodes. -/
theorem Tree.lt_size_of_mem_chain (h : g.Tree) (hi : i < g.size) (hj : j ∈ g.chain i) : j < g.size := by
  refine h.climb (motive := fun i => j ∈ g.chain i → j < g.size) (fun hj => ?_) (fun i c hc ih hj => ?_) hi hj
  · rw [h.chain_root, List.mem_singleton] at hj
    rw [hj]
    exact h.size_pos
  · rw [h.chain_of_child hc] at hj
    rcases List.mem_cons.1 hj with rfl | hj
    · exact lt_size_of_child? hc
    · exact ih hj

theorem lt_size_of_mem_tops (hi : i ∈ g.tops) : i < g.size := List.mem_range.1 (List.mem_filter.1 hi).1

/-- The steps of the way down from a top have tokens. -/
theorem Tree.exists_token_of_chain (h : g.Tree) (hi : i ∈ g.tops) (hch : g.chain i = pre ++ j :: post) : ∃ t, g.token? j = some t := by
  refine exists_token?_iff.2 (h.lt_size_of_mem_chain (lt_size_of_mem_tops hi) ?_)
  rw [hch]
  exact List.mem_append_right pre List.mem_cons_self

/-- The tops are the nodes that are no child of another. -/
theorem Tree.mem_tops_iff (h : g.Tree) : i ∈ g.tops ↔ i < g.size ∧ ∀ k, g.child? k ≠ some i := by
  rw [tops, List.mem_filter, ids, List.mem_range, List.isEmpty_iff, List.eq_nil_iff_forall_not_mem]
  exact and_congr_right fun _ => forall_congr' fun k => not_congr (h.linked i k)

/-- Each step of a way down leads to the child. -/
theorem Tree.child?_of_chain (h : g.Tree) (hi : i < g.size) (hch : g.chain i = pre ++ j :: c :: post) :
    g.child? j = some c := by
  refine h.climb (motive := fun i => ∀ pre, g.chain i = pre ++ j :: c :: post → g.child? j = some c) ?_ ?_ hi pre hch
  · intro pre hch
    have hlen := congrArg List.length hch
    rw [h.chain_root] at hlen
    simp only [List.length_append, List.length_cons, List.length_nil] at hlen
    omega
  · intro i d hd ih pre hch
    rw [h.chain_of_child hd] at hch
    cases pre with
    | cons a pre => exact ih pre (List.cons.inj hch).2
    | nil =>
      obtain ⟨rfl, htail⟩ := List.cons.inj hch
      obtain ⟨is, his⟩ := exists_chain_eq_cons g d
      rw [his] at htail
      rw [hd, (List.cons.inj htail).1]

/-- What a node found are parents of it. -/
theorem Charted.parent_of_mem_parents (h : g.Charted f) (ht : g.token? i = some t) (hj : j ∈ g.parents i) :
    ∃ u, g.token? j = some u ∧ f.Parent g.search t.identity u.identity := by
  have hc := (h.tree.linked i j).1 hj
  obtain ⟨u, hu⟩ := exists_token?_iff.2 (lt_size_of_child? hc)
  exact ⟨u, hu, h.upward j i u t hc hu ht⟩

end LevelGraph

/-! ## Where two ways part -/

namespace Place

variable {p q : Place} {x y : Identity}

/-- The node of a place names an object. -/
def Names (p : Place) (x : Identity) : Prop := ∃ t, p.token? = some t ∧ t.identity = x

theorem Names.unique (h : p.Names x) (h' : p.Names y) : x = y := by
  obtain ⟨t, ht, rfl⟩ := h
  obtain ⟨u, hu, rfl⟩ := h'
  rw [ht] at hu
  cases hu
  rfl

/-- What one object was found through has it as a parent. -/
theorem parent_of_names {f : Ancestry} {g : LevelGraph} {c i : Nat} (h : g.Charted f) (hc : g.child? i = some c)
    (hx : Names ⟨g, c⟩ x) (hy : Names ⟨g, i⟩ y) : f.Parent g.search x y := by
  obtain ⟨u, hu, rfl⟩ := hx
  obtain ⟨t, ht, rfl⟩ := hy
  exact h.upward i c t u hc ht hu

/-- Places are the same if their nodes name the same object. -/
theorem same_iff : p.same q = true ↔ ∃ x, p.Names x ∧ q.Names x := by
  unfold same Names
  cases p.token? with
  | none => simp
  | some a =>
    cases q.token? with
    | none => simp
    | some b =>
      constructor
      · intro h
        exact ⟨b.identity, ⟨a, rfl, Token.same_iff.1 h⟩, b, rfl, rfl⟩
      · rintro ⟨x, ⟨a', ha, hax⟩, b', hb, hbx⟩
        cases ha
        cases hb
        exact Token.same_iff.2 (hax.trans hbx.symm)

theorem same_comm : p.same q = true ↔ q.same p = true := by
  rw [same_iff, same_iff]
  exact ⟨fun ⟨x, hp, hq⟩ => ⟨x, hq, hp⟩, fun ⟨x, hq, hp⟩ => ⟨x, hp, hq⟩⟩

/-- A place is the same as itself, unless its node is not there. -/
theorem same_self {t : Token} (h : p.token? = some t) : p.same p = true := same_iff.2 ⟨t.identity, ⟨t, h, rfl⟩, t, h, rfl⟩

/-- Places that are not the same name different objects. -/
theorem not_names_of_same (h : p.same q = false) (hp : p.Names x) : ¬q.Names x := by
  intro hq
  rw [same_iff.2 ⟨x, hp, hq⟩] at h
  cases h

end Place

namespace Difference

open LevelGraph

variable {left right : LevelGraph} {L R pre pre' : List Nat} {i j k top : Nat} {p : Place}

/-- The nodes of two graphs name the same object. -/
def Matches (left right : LevelGraph) (i j : Nat) : Prop := Place.same ⟨left, i⟩ ⟨right, j⟩ = true

instance : Decidable (Matches left right i j) := inferInstanceAs (Decidable (_ = true))

theorem matches_iff : Matches left right i j ↔ ∃ x, Place.Names ⟨left, i⟩ x ∧ Place.Names ⟨right, j⟩ x := Place.same_iff

theorem Matches.symm (h : Matches left right i j) : Matches right left j i := Place.same_comm.1 h

theorem Matches.lt_size (h : Matches left right i j) : i < left.size := by
  obtain ⟨x, ⟨t, ht, -⟩, -⟩ := matches_iff.1 h
  exact lt_size_of_token? ht

/-- A node matches one node of a tree at most. -/
theorem Matches.unique (hr : right.Tree) (h : Matches left right i j) (h' : Matches left right i k) : j = k := by
  obtain ⟨x, hi, t, ht, hx⟩ := matches_iff.1 h
  obtain ⟨x', hi', u, hu, hx'⟩ := matches_iff.1 h'
  exact hr.distinct j k t u ht hu (by rw [hx, hx', hi.unique hi'])

/-- Nodes match if their finds name the same object. -/
theorem matches_of_finds {a b : Find} (hi : left.finds[i]? = some a) (hj : right.finds[j]? = some b)
    (h : b.token.identity = a.token.identity) : Matches left right i j := by
  refine matches_iff.2 ⟨a.token.identity, ⟨a.token, ?_, rfl⟩, b.token, ?_, h⟩
  · rw [Place.token?, token?_eq_finds, hi]
    rfl
  · rw [Place.token?, token?_eq_finds, hj]
    rfl

/-- What is on one of two ways that match has its match on the other. -/
theorem exists_match_of_mem (h : List.Forall₂ (Matches left right) pre pre') (hi : i ∈ pre) :
    ∃ j ∈ pre', Matches left right i j := by
  induction h with
  | nil => cases hi
  | @cons a b _ _ hab _ ih =>
    rcases List.mem_cons.1 hi with rfl | hi
    · exact ⟨b, List.mem_cons_self, hab⟩
    · obtain ⟨j, hj, hij⟩ := ih hi
      exact ⟨j, List.mem_cons_of_mem b hj, hij⟩

/-- Ways that match do so in either order. -/
theorem matches_flip (h : List.Forall₂ (Matches left right) pre pre') : List.Forall₂ (Matches right left) pre' pre :=
  List.Forall₂.flip (h.imp fun _ _ hm => hm.symm)

/-- Ways that match name the same. -/
theorem names_eq_of_matches (h : List.Forall₂ (Matches left right) pre pre') : left.names pre = right.names pre' := by
  induction h with
  | nil => rfl
  | cons hij _ ih =>
    obtain ⟨x, ⟨t, ht, htx⟩, u, hu, hux⟩ := matches_iff.1 hij
    rw [left.names_cons ht, right.names_cons hu, ih, htx, hux]

/-- Steps that two ways share do not matter for where they part. -/
theorem partedFrom_append (h : List.Forall₂ (Matches left right) pre pre') (L R : List Nat) :
    partedFrom left right (pre ++ L) (pre' ++ R) = partedFrom left right L R := by
  induction h with
  | nil => rfl
  | cons hij _ ih =>
    rw [List.cons_append, List.cons_append, partedFrom]
    exact (if_pos hij).trans ih

/-- Two ways share some steps, and then the first of them ends, or it goes on where the other does not. -/
theorem exists_shared (left right : LevelGraph) (L R : List Nat) :
    ∃ pre pre' post post', L = pre ++ post ∧ R = pre' ++ post' ∧ List.Forall₂ (Matches left right) pre pre' ∧
      partedFrom left right L R = post.head? ∧ ∀ i ∈ post.head?, ∀ j ∈ post'.head?, ¬Matches left right i j := by
  induction L generalizing R with
  | nil => exact ⟨[], [], [], R, rfl, rfl, List.Forall₂.nil, rfl, fun i hi => by cases hi⟩
  | cons i L ih =>
    cases R with
    | nil => exact ⟨[], [], i :: L, [], rfl, rfl, List.Forall₂.nil, rfl, fun _ _ j hj => by cases hj⟩
    | cons j R =>
      by_cases hij : Matches left right i j
      · obtain ⟨pre, pre', post, post', rfl, rfl, hm, hp, hne⟩ := ih R
        refine ⟨i :: pre, j :: pre', post, post', rfl, rfl, hm.cons hij, ?_, hne⟩
        rw [partedFrom]
        exact (if_pos hij).trans hp
      · refine ⟨[], [], i :: L, j :: R, rfl, rfl, List.Forall₂.nil, ?_, ?_⟩
        · rw [partedFrom]
          exact if_neg hij
        · intro i' hi' j' hj'
          cases hi'
          cases hj'
          exact hij

/-- The ways of a top node that both graphs have are compared. -/
theorem partedAt_eq_some_iff (hr : right.Tree) :
    partedAt left right top = some p ↔ ∃ other ∈ right.tops, Matches left right top other ∧
      partedFrom left right (left.chain top) (right.chain other) = some p.id ∧ p.graph = left := by
  unfold partedAt
  constructor
  · intro h
    split at h
    · cases h
    · next other hf =>
      obtain ⟨i, hi, rfl⟩ := Option.map_eq_some_iff.1 h
      have hm := List.find?_some hf
      exact ⟨other, List.mem_of_find?_eq_some hf, hm, hi, rfl⟩
  · rintro ⟨other, ho, hm, hp, rfl⟩
    split
    · next hf => exact absurd hm (List.find?_eq_none.1 hf other ho)
    · next other' hf =>
      -- a tree names every object once, so the top node that was found is the one that is meant
      have hm' := List.find?_some hf
      rw [Matches.unique hr hm' hm, hp]
      rfl

/-- One graph leaves the other at a place. -/
def Parts (left right : LevelGraph) (p : Place) : Prop := ∃ top ∈ left.tops, partedAt left right top = some p

/-- Where one graph leaves another, the ways down from a top that both have are shared up to there. -/
theorem Parts.exists_split (hr : right.Tree) (h : Parts left right p) :
    p.graph = left ∧ ∃ top ∈ left.tops, ∃ other ∈ right.tops, Matches left right top other ∧ ∃ pre pre' post post',
      left.chain top = pre ++ p.id :: post ∧ right.chain other = pre' ++ post' ∧
        List.Forall₂ (Matches left right) pre pre' ∧ ∀ j ∈ post'.head?, ¬Matches left right p.id j := by
  obtain ⟨top, htop, hp⟩ := h
  obtain ⟨other, hother, hm, hp, hgraph⟩ := (partedAt_eq_some_iff hr).1 hp
  obtain ⟨pre, pre', post, post', hL, hR, hpre, hhead, hne⟩ := exists_shared left right (left.chain top) (right.chain other)
  rw [hp] at hhead
  cases post with
  | nil => cases hhead
  | cons i post =>
    obtain rfl : p.id = i := Option.some.inj hhead
    exact ⟨hgraph, top, htop, other, hother, hm, pre, pre', post, post', hL, hR, hpre, hne _ rfl⟩

/-- Where one graph leaves another there is a node. -/
theorem Parts.exists_token (hl : left.Tree) (hr : right.Tree) (h : Parts left right p) : ∃ t, p.token? = some t := by
  obtain ⟨rfl, top, htop, -, -, -, pre, -, post, -, hchain, -⟩ := h.exists_split hr
  exact hl.exists_token_of_chain htop hchain

/-- Where one graph leaves another, the node found a parent that both graphs have. -/
theorem Parts.exists_parent (hl : left.Tree) (hr : right.Tree) (h : Parts left right p) :
    p.graph = left ∧ ∃ j ∈ left.parents p.id, ∃ k, Matches left right j k := by
  obtain ⟨hgraph, top, htop, other, -, hm, pre, pre', post, post', hL, hR, hpre, hne⟩ := h.exists_split hr
  refine ⟨hgraph, ?_⟩
  -- the ways have their top in common, so there is a step before
  rcases List.eq_nil_or_concat' pre with rfl | ⟨pre₀, j, rfl⟩
  · obtain rfl := List.forall₂_nil_left_iff.1 hpre
    obtain ⟨is, his⟩ := left.exists_chain_eq_cons top
    obtain ⟨js, hjs⟩ := right.exists_chain_eq_cons other
    rw [his, List.nil_append] at hL
    rw [hjs, List.nil_append] at hR
    rw [(List.cons.inj hL).1] at hm
    exact absurd hm (hne other (by rw [← hR]; rfl))
  · obtain ⟨k, -, hjk⟩ := exists_match_of_mem hpre (List.mem_append_right pre₀ (List.mem_singleton.2 rfl))
    refine ⟨j, (hl.linked p.id j).2 ?_, k, hjk⟩
    rw [List.append_assoc] at hL
    exact hl.child?_of_chain (LevelGraph.lt_size_of_mem_tops htop) hL

end Difference
end Lineage
