import Lineage.Graph.Paths
import Lineage.Proofs.Paths.Maximal
import Mathlib.Data.List.Forall2

/-!
# The links of a path graph

A path graph has one node for each identity that was named, all of them are reached from its root, and the parents that a node has once
it is expanded are nodes for the parents of what it names, each once and in order (`Sound`). Whatever is done with a path graph, nodes
keep their numbers and tokens, and an expanded node keeps its parents (`Extends`).
-/

namespace Lineage.PathGraph

/-- The node with a number is there and names an identity. -/
def Calls (g : PathGraph) (i : NodeId) (x : Identity) : Prop := ∃ n, g.nodes[i]? = some n ∧ n.token.identity = x

/-- Nodes name identities, one by one. -/
abbrev Names (g : PathGraph) : List NodeId → List Identity → Prop := List.Forall₂ g.Calls

/-- Nodes were added, and some of the nodes that were there may have been expanded. -/
structure Extends (g g' : PathGraph) : Prop where
  root : g'.root = g.root
  nodes : ∀ (i : NodeId) (n : Node), g.nodes[i]? = some n →
    ∃ n' : Node, g'.nodes[i]? = some n' ∧ n'.token = n.token ∧ ∀ ps, n.parents = some ps → n'.parents = some ps

/-- The graph shows a part of what is reached from its root. -/
structure Sound (f : Ancestry) (g : PathGraph) : Prop where
  root : ∃ n : Node, g.nodes[0]? = some n ∧ n.token = g.root
  distinct : ∀ i j x, g.Calls i x → g.Calls j x → i = j
  linked : ∀ (i : NodeId) (n : Node) (ps : List NodeId), g.nodes[i]? = some n → n.parents = some ps → g.Names ps (f.parentIds n.token.identity)
  reached : ∀ i x, g.Calls i x → f.Reaches .both g.root.identity x

variable {f : Ancestry} {g g' g'' : PathGraph} {i j : NodeId} {ps found : List NodeId} {t : Token} {x y : Identity}
  {xs : List Identity}

/-! ## What nodes name -/

theorem Calls.lt_size (h : g.Calls i x) : i < g.size := by
  obtain ⟨n, hn, -⟩ := h
  exact (Array.getElem?_eq_some_iff.1 hn).1

theorem node_eq_ok_iff {n : Node} : g.node i = .ok n ↔ g.nodes[i]? = some n := by
  unfold node
  cases g.nodes[i]? with
  | none => simp
  | some m => simp

theorem isExpanded_iff : g.isExpanded i = true ↔ ∃ (n : Node) (ps : List NodeId), g.nodes[i]? = some n ∧ n.parents = some ps := by
  rw [isExpanded, Option.isSome_iff_exists]
  simp only [Option.bind_eq_some_iff]
  constructor
  · rintro ⟨ps, n, hn, hps⟩
    exact ⟨n, ps, hn, hps⟩
  · rintro ⟨n, ps, hn, hps⟩
    exact ⟨ps, n, hn, hps⟩

/-- A node names one identity. -/
theorem Calls.unique (h : g.Calls i x) (h' : g.Calls i y) : x = y := by
  obtain ⟨n, hn, rfl⟩ := h
  obtain ⟨m, hm, rfl⟩ := h'
  rw [hn] at hm
  cases hm
  rfl

theorem Extends.refl (g : PathGraph) : g.Extends g := ⟨rfl, fun _ n hn => ⟨n, hn, rfl, fun _ h => h⟩⟩

theorem Extends.trans (h : g.Extends g') (h' : g'.Extends g'') : g.Extends g'' := by
  refine ⟨h'.root.trans h.root, fun i n hn => ?_⟩
  obtain ⟨n', hn', ht, hp⟩ := h.nodes i n hn
  obtain ⟨n'', hn'', ht', hp'⟩ := h'.nodes i n' hn'
  exact ⟨n'', hn'', ht'.trans ht, fun ps hps => hp' ps (hp ps hps)⟩

/-- What a node names it names for good. -/
theorem Extends.calls (h : g.Extends g') (hi : g.Calls i x) : g'.Calls i x := by
  obtain ⟨n, hn, rfl⟩ := hi
  obtain ⟨n', hn', ht, -⟩ := h.nodes i n hn
  exact ⟨n', hn', by rw [ht]⟩

theorem Extends.names (h : g.Extends g') (hps : g.Names ps xs) : g'.Names ps xs := hps.imp fun _ _ => h.calls

/-- What was expanded stays expanded. -/
theorem Extends.isExpanded (h : g.Extends g') (hi : g.isExpanded i = true) : g'.isExpanded i = true := by
  obtain ⟨n, ps, hn, hps⟩ := isExpanded_iff.1 hi
  obtain ⟨n', hn', -, hp⟩ := h.nodes i n hn
  exact isExpanded_iff.2 ⟨n', ps, hn', hp ps hps⟩

namespace Sound

variable (h : g.Sound f)

include h

/-- Nodes and the identities they name determine each other. -/
theorem biUnique : Relator.BiUnique g.Calls := ⟨fun _ _ _ hi hj => h.distinct _ _ _ hi hj, fun _ _ _ hx hy => hx.unique hy⟩

theorem mem_iff (hps : g.Names ps xs) (hi : g.Calls i x) : i ∈ ps ↔ x ∈ xs := List.rel_mem h.biUnique hi hps

theorem eq_of_names {qs : List NodeId} (hps : g.Names ps xs) (hqs : g.Names qs xs) : ps = qs :=
  List.left_unique_forall₂' h.biUnique.1 hps hqs

/-- The nodes that are not among some nodes name what is not among what those name. -/
theorem names_filter {qs : List NodeId} {ys : List Identity} (hps : g.Names ps xs) (hqs : g.Names qs ys) :
    g.Names (ps.filter (· ∉ qs)) (xs.filter (· ∉ ys)) := by
  refine List.rel_filter (fun i x hi => ?_) hps
  show decide (i ∉ qs) = true ↔ decide (x ∉ ys) = true
  rw [decide_eq_true_iff, decide_eq_true_iff, h.mem_iff hqs hi]

end Sound

/-! ## Adding nodes -/

/-- The graph with one more node, which is not expanded. -/
def add (g : PathGraph) (t : Token) : PathGraph := { g with nodes := g.nodes.push ⟨t, none⟩ }

theorem extends_add (g : PathGraph) (t : Token) : g.Extends (g.add t) := by
  refine ⟨rfl, fun i n hn => ⟨n, ?_, rfl, fun _ h => h⟩⟩
  have hi := (Array.getElem?_eq_some_iff.1 hn).1
  rw [add, Array.getElem?_push, if_neg (Nat.ne_of_lt hi), hn]

theorem calls_add_iff : (g.add t).Calls i x ↔ g.Calls i x ∨ (i = g.size ∧ t.identity = x) := by
  unfold Calls add
  simp only [Array.getElem?_push]
  by_cases hi : i = g.nodes.size
  · subst hi
    simp [size]
  · rw [if_neg hi]
    constructor
    · exact Or.inl
    · rintro (h | ⟨h, -⟩)
      · exact h
      · exact absurd h hi

/-- A token has a node already, or it gets a new one. -/
theorem nodeFor_cases (g : PathGraph) (t : Token) :
    (∃ i, g.nodeFor t = (i, g) ∧ g.Calls i t.identity) ∨
      (g.nodeFor t = (g.size, g.add t) ∧ ∀ i, ¬g.Calls i t.identity) := by
  unfold nodeFor
  cases hf : g.find? t with
  | some i =>
    obtain ⟨hi, hsame, -⟩ := Array.findIdx?_eq_some_iff_getElem.1 hf
    exact Or.inl ⟨i, rfl, g.nodes[i], Array.getElem?_eq_getElem hi, Token.same_iff.1 hsame⟩
  | none =>
    refine Or.inr ⟨rfl, fun i hi => ?_⟩
    obtain ⟨n, hn, hx⟩ := hi
    have hnone := Array.findIdx?_eq_none_iff.1 hf n (Array.mem_of_getElem? hn)
    rw [Token.same_iff.2 hx] at hnone
    cases hnone

theorem Sound.add (h : g.Sound f) (hnew : ∀ i, ¬g.Calls i t.identity) (ht : f.Reaches .both g.root.identity t.identity) :
    (g.add t).Sound f where
  root := by
    obtain ⟨n, hn, hroot⟩ := h.root
    obtain ⟨n', hn', ht', -⟩ := (extends_add g t).nodes 0 n hn
    exact ⟨n', hn', ht'.trans hroot⟩
  distinct i j x hi hj := by
    rcases calls_add_iff.1 hi with hi | ⟨rfl, rfl⟩
    · rcases calls_add_iff.1 hj with hj | ⟨-, rfl⟩
      · exact h.distinct i j x hi hj
      · exact absurd hi (hnew i)
    · rcases calls_add_iff.1 hj with hj | ⟨rfl, -⟩
      · exact absurd hj (hnew j)
      · rfl
  linked i n ps hn hps := by
    refine (extends_add g t).names ?_
    rw [PathGraph.add, Array.getElem?_push] at hn
    split at hn
    · cases hn
      cases hps
    · exact h.linked i n ps hn hps
  reached i x hi := by
    rcases calls_add_iff.1 hi with hi | ⟨-, rfl⟩
    · exact h.reached i x hi
    · exact ht

/-- The node of a token names it. -/
theorem Sound.nodeFor (h : g.Sound f) (ht : f.Reaches .both g.root.identity t.identity) :
    (g.nodeFor t).2.Sound f ∧ g.Extends (g.nodeFor t).2 ∧ (g.nodeFor t).2.Calls (g.nodeFor t).1 t.identity := by
  rcases nodeFor_cases g t with ⟨i, hi, hcalls⟩ | ⟨hi, hnew⟩
  · rw [hi]
    exact ⟨h, Extends.refl g, hcalls⟩
  · rw [hi]
    exact ⟨h.add hnew ht, extends_add g t, calls_add_iff.2 (Or.inr ⟨rfl, rfl⟩)⟩

/-- The nodes of tokens, added to those found before, name what the tokens name, added to what was found before. -/
theorem Sound.link (h : g.Sound f) (hfound : g.Names found xs) {ts : List Token}
    (hts : ∀ t ∈ ts, f.Reaches .both g.root.identity t.identity) :
    (g.link found ts).2.Sound f ∧ g.Extends (g.link found ts).2 ∧
      (g.link found ts).2.Names (g.link found ts).1 (Ancestry.adding xs ts) := by
  induction ts generalizing g found xs with
  | nil => exact ⟨h, Extends.refl g, hfound⟩
  | cons t ts ih =>
    obtain ⟨hsound, hextends, hcalls⟩ := h.nodeFor (hts t List.mem_cons_self)
    have hfound' := hextends.names hfound
    have hnext : (g.nodeFor t).2.Names (if (g.nodeFor t).1 ∈ found then found else found ++ [(g.nodeFor t).1])
        (if t.identity ∈ xs then xs else xs ++ [t.identity]) := by
      by_cases hmem : t.identity ∈ xs
      · rw [if_pos hmem, if_pos ((hsound.mem_iff hfound' hcalls).2 hmem)]
        exact hfound'
      · rw [if_neg hmem, if_neg fun hi => hmem ((hsound.mem_iff hfound' hcalls).1 hi)]
        exact List.rel_append hfound' (List.Forall₂.cons hcalls List.Forall₂.nil)
    have hrest : ∀ u ∈ ts, f.Reaches .both (g.nodeFor t).2.root.identity u.identity := by
      rw [hextends.root]
      exact fun u hu => hts u (List.mem_cons_of_mem t hu)
    obtain ⟨hsound', hextends', hnames⟩ := ih hsound hnext hrest
    exact ⟨hsound', hextends.trans hextends', hnames⟩

/-! ## Expanding nodes -/

theorem nodes_settle (g : PathGraph) (i j : NodeId) (ps : List NodeId) :
    (g.settle i ps).nodes[j]? = if i = j then g.nodes[j]?.map fun n => { n with parents := some ps } else g.nodes[j]? :=
  Array.getElem?_modify

theorem calls_settle_iff : (g.settle i ps).Calls j y ↔ g.Calls j y := by
  unfold Calls
  rw [nodes_settle]
  split
  · cases g.nodes[j]? <;> simp
  · exact Iff.rfl

/-- A node that is told its parents loses nothing by it: those it had were the same. -/
theorem Sound.extends_settle (h : g.Sound f) (hi : g.Calls i x) (hps : g.Names ps (f.parentIds x)) :
    g.Extends (g.settle i ps) := by
  refine ⟨rfl, fun j n hn => ?_⟩
  by_cases hij : i = j
  · subst hij
    refine ⟨{ n with parents := some ps }, by rw [nodes_settle, if_pos rfl, hn]; rfl, rfl, fun qs hqs => ?_⟩
    have hx : n.token.identity = x := Calls.unique ⟨n, hn, rfl⟩ hi
    have hnames := h.linked i n qs hn hqs
    rw [hx] at hnames
    rw [h.eq_of_names hnames hps]
  · exact ⟨n, by rw [nodes_settle, if_neg hij, hn], rfl, fun _ h => h⟩

/-- A node is told its parents, for the first time or once more. -/
theorem Sound.settle (h : g.Sound f) (hi : g.Calls i x) (hps : g.Names ps (f.parentIds x)) : (g.settle i ps).Sound f where
  root := by
    obtain ⟨n, hn, hroot⟩ := h.root
    obtain ⟨n', hn', ht', -⟩ := (h.extends_settle hi hps).nodes 0 n hn
    exact ⟨n', hn', ht'.trans hroot⟩
  distinct j k y hj hk := h.distinct j k y (calls_settle_iff.1 hj) (calls_settle_iff.1 hk)
  linked j n qs hn hqs := by
    refine (h.extends_settle hi hps).names ?_
    rw [nodes_settle] at hn
    split at hn
    · next hij =>
      subst hij
      obtain ⟨m, hm, rfl⟩ := Option.map_eq_some_iff.1 hn
      have hx : m.token.identity = x := Calls.unique ⟨m, hm, rfl⟩ hi
      cases hqs
      show g.Names ps (f.parentIds m.token.identity)
      rw [hx]
      exact hps
    · exact h.linked j n qs hn hqs
  reached j y hj := h.reached j y (calls_settle_iff.1 hj)

theorem isExpanded_settle (hi : g.Calls i x) (ps : List NodeId) : (g.settle i ps).isExpanded i = true := by
  obtain ⟨n, hn, -⟩ := hi
  exact isExpanded_iff.2 ⟨{ n with parents := some ps }, ps, by rw [nodes_settle, if_pos rfl, hn]; rfl, rfl⟩

/-- The graph of a root alone. -/
theorem calls_start_iff {root : Token} : (start root).Calls i x ↔ i = 0 ∧ root.identity = x := by
  constructor
  · intro hi
    obtain rfl : i = 0 := Nat.lt_one_iff.1 hi.lt_size
    obtain ⟨n, hn, hx⟩ := hi
    cases hn
    exact ⟨rfl, hx⟩
  · rintro ⟨rfl, hx⟩
    exact ⟨_, rfl, hx⟩

theorem sound_start (f : Ancestry) (root : Token) : (start root).Sound f where
  root := ⟨_, rfl, rfl⟩
  distinct i j x hi hj := (calls_start_iff.1 hi).1.trans (calls_start_iff.1 hj).1.symm
  linked i n ps hn hps := by
    obtain ⟨rfl, -⟩ := calls_start_iff.1 ⟨n, hn, rfl⟩
    cases hn
    cases hps
  reached i x hi := by
    rw [← (calls_start_iff.1 hi).2]
    exact Ancestry.Reaches.refl _

end Lineage.PathGraph
