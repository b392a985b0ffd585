import Lineage.Graph.Growth
import Lineage.Proofs.Ancestry

/-!
# Level graphs as trees

Whatever a graph was asked and told, it is a tree above its root: every node but the root was found by exactly one node, one level
below it, which has it among its parents, and no two nodes name the same object (`Tree`). Attaching a parent keeps the tree, and it
leaves the nodes that are there where they are (`Extends`).
-/

namespace Lineage.LevelGraph

variable {g g' g'' : LevelGraph} {i j c p : Nat} {b : Branch} {t u : Token}

/-! ## Reading nodes -/

theorem node?_eq_none_iff : g.node? i = none ↔ g.size ≤ i := by simp [node?, size]

/-- A node has a token exactly when its number is one of the graph. -/
theorem exists_token?_iff : (∃ t, g.token? i = some t) ↔ i < g.size := by
  simp only [token?, Option.map_eq_some_iff, node?, size]
  constructor
  · rintro ⟨_, n, hn, _⟩
    exact (Array.getElem?_eq_some_iff.1 hn).1
  · intro hi
    exact ⟨_, _, Array.getElem?_eq_getElem hi, rfl⟩

theorem lt_size_of_token? (h : g.token? i = some t) : i < g.size := exists_token?_iff.1 ⟨t, h⟩

theorem lt_size_of_child? (h : g.child? i = some c) : i < g.size := by
  refine Nat.lt_of_not_le fun hle => ?_
  rw [child?, node?_eq_none_iff.2 hle] at h
  cases h

theorem lt_size_of_mem_parents (h : p ∈ g.parents c) : c < g.size := by
  refine Nat.lt_of_not_le fun hle => ?_
  rw [parents, node?_eq_none_iff.2 hle] at h
  cases h

/-! ## Attaching one parent -/

/-- What is in the graph is not attached again. -/
theorem attach_of_contains (h : g.contains t = true) : g.attach c b t = g := by rw [attach, if_pos h]

/-- The nodes after a new parent was attached: a new one at the end, and one that knows of it. -/
theorem node?_attach (hc : c < g.size) (h : g.contains t = false) :
    (g.attach c b t).node? i =
      if i = g.size then some ⟨t, g.levelOf c + 1, b, [], some c⟩
      else if i = c then (g.node? i).map fun n => { n with parents := n.parents ++ [g.size] } else g.node? i := by
  have hne : ¬g.size = c := by omega
  simp only [attach, h, Bool.false_eq_true, if_false, node?, Array.getElem?_modify, Array.getElem?_push]
  by_cases hi : i = g.size
  · subst hi
    rw [if_neg (Ne.symm hne), if_pos rfl]
    exact if_pos rfl
  · rw [if_neg hi, show (g.nodes.size = g.size) from rfl, if_neg hi]
    by_cases hic : i = c
    · rw [if_pos hic.symm, if_pos hic]
    · rw [if_neg (Ne.symm hic), if_neg hic]

section Attach

variable (hc : c < g.size) (h : g.contains t = false)

include h in
theorem size_attach : (g.attach c b t).size = g.size + 1 := by simp [attach, h, size]

include h in
theorem index_attach : (g.attach c b t).index = g.index.set t.identity g.size := by simp [attach, h]

include hc h

theorem token?_attach : (g.attach c b t).token? i = if i = g.size then some t else g.token? i := by
  simp only [token?, node?_attach hc h]
  split
  · rfl
  · split
    · rw [Option.map_map]
      rfl
    · rfl

theorem levelOf_attach : (g.attach c b t).levelOf i = if i = g.size then g.levelOf c + 1 else g.levelOf i := by
  simp only [levelOf, node?_attach hc h]
  split
  · rfl
  · split
    · rw [Option.map_map]
      rfl
    · rfl

theorem child?_attach : (g.attach c b t).child? i = if i = g.size then some c else g.child? i := by
  simp only [child?, node?_attach hc h]
  split
  · rfl
  · split
    · rw [Option.bind_map]
      rfl
    · rfl

theorem parents_attach : (g.attach c b t).parents i = if i = c then g.parents c ++ [g.size] else g.parents i := by
  have hne : ¬g.size = c := by omega
  simp only [parents, node?_attach hc h]
  by_cases hi : i = g.size
  · subst hi
    rw [if_pos rfl, if_neg hne, node?_eq_none_iff.2 (Nat.le_refl _)]
    rfl
  · rw [if_neg hi]
    by_cases hic : i = c
    · subst hic
      obtain ⟨n, hn⟩ : ∃ n, g.node? i = some n := by
        cases hn : g.node? i with
        | none => exact absurd (node?_eq_none_iff.1 hn) (by omega)
        | some n => exact ⟨n, rfl⟩
      rw [if_pos rfl, if_pos rfl, hn]
      rfl
    · rw [if_neg hic, if_neg hic]

end Attach

/-- What is attached is a new node, if it is anything at all. -/
theorem attach_eq_or_lt (g : LevelGraph) (c : NodeId) (b : Branch) (t : Token) :
    g.attach c b t = g ∨ g.size < (g.attach c b t).size := by
  by_cases h : g.contains t = true
  · exact Or.inl (attach_of_contains h)
  · rw [size_attach (Bool.eq_false_iff.2 h)]
    exact Or.inr (Nat.lt_succ_self _)

/-- Steps that add nodes or do nothing, one after the other. -/
theorem eq_or_lt_trans (h : g' = g ∨ g.size < g'.size) (h' : g'' = g' ∨ g'.size < g''.size) : g'' = g ∨ g.size < g''.size := by
  rcases h with rfl | hlt
  · exact h'
  · rcases h' with rfl | hlt'
    · exact Or.inr hlt
    · exact Or.inr (Nat.lt_trans hlt hlt')

/-- Parents that are attached are new nodes, if any of them is. -/
theorem attachAll_eq_or_lt (g : LevelGraph) (c : NodeId) (b : Branch) (ts : List Token) :
    g.attachAll c b ts = g ∨ g.size < (g.attachAll c b ts).size := by
  induction ts generalizing g with
  | nil => exact Or.inl rfl
  | cons t ts ih => exact eq_or_lt_trans (g.attach_eq_or_lt c b t) (ih (g.attach c b t))

/-! ## Extensions -/

/-- `g'` is `g` with nodes added: what a node names, where it is and who found it has not changed. -/
structure Extends (g g' : LevelGraph) : Prop where
  scope : g'.scope = g.scope
  search : g'.search = g.search
  root : g'.root = g.root
  levels : g'.levels = g.levels
  more : g'.more = g.more
  size : g.size ≤ g'.size
  token : ∀ i < g.size, g'.token? i = g.token? i
  level : ∀ i < g.size, g'.levelOf i = g.levelOf i
  child : ∀ i < g.size, g'.child? i = g.child? i

theorem Extends.refl (g : LevelGraph) : g.Extends g :=
  ⟨rfl, rfl, rfl, rfl, rfl, Nat.le_refl _, fun _ _ => rfl, fun _ _ => rfl, fun _ _ => rfl⟩

theorem Extends.trans (h : g.Extends g') (h' : g'.Extends g'') : g.Extends g'' where
  scope := h'.scope.trans h.scope
  search := h'.search.trans h.search
  root := h'.root.trans h.root
  levels := h'.levels.trans h.levels
  more := h'.more.trans h.more
  size := Nat.le_trans h.size h'.size
  token i hi := (h'.token i (Nat.lt_of_lt_of_le hi h.size)).trans (h.token i hi)
  level i hi := (h'.level i (Nat.lt_of_lt_of_le hi h.size)).trans (h.level i hi)
  child i hi := (h'.child i (Nat.lt_of_lt_of_le hi h.size)).trans (h.child i hi)

/-- A token keeps its node in every extension. -/
theorem Extends.token?_eq (h : g.Extends g') (ht : g.token? i = some t) : g'.token? i = some t := by
  rw [h.token i (lt_size_of_token? ht), ht]

theorem extends_attach (hc : c < g.size) (b : Branch) (t : Token) : g.Extends (g.attach c b t) := by
  by_cases h : g.contains t = true
  · rw [attach_of_contains h]
    exact Extends.refl g
  · rw [Bool.not_eq_true] at h
    refine ⟨?_, ?_, ?_, ?_, ?_, ?_, fun i hi => ?_, fun i hi => ?_, fun i hi => ?_⟩
    · rw [attach, h]; rfl
    · rw [attach, h]; rfl
    · rw [attach, h]; rfl
    · rw [attach, h]; rfl
    · rw [attach, h]; rfl
    · rw [size_attach h]; omega
    · rw [token?_attach hc h, if_neg (by omega)]
    · rw [levelOf_attach hc h, if_neg (by omega)]
    · rw [child?_attach hc h, if_neg (by omega)]

/-! ## Trees -/

/-- The nodes are a tree above the root, in which every object is named once. -/
structure Tree (g : LevelGraph) : Prop where
  root : g.token? 0 = some g.root
  bottom : g.child? 0 = none
  ground : g.levelOf 0 = 0
  /-- the index leads to the node that names an object -/
  indexed : ∀ (x : Identity) (i : Nat), g.index.find? x = some i ↔ ∃ t, g.token? i = some t ∧ t.identity = x
  /-- a node was found by one before it, one level below -/
  found : ∀ i, 0 < i → i < g.size → ∃ c : Nat, g.child? i = some c ∧ c < i ∧ g.levelOf i = g.levelOf c + 1
  /-- the parents of a node are the nodes that it found -/
  linked : ∀ c p : Nat, p ∈ g.parents c ↔ g.child? p = some c
  increasing : ∀ c : Nat, (g.parents c).Pairwise (· < ·)

theorem Tree.size_pos (h : g.Tree) : 0 < g.size := lt_size_of_token? h.root

/-- No two nodes name the same object. -/
theorem Tree.distinct (h : g.Tree) (i j : Nat) (t u : Token) (hi : g.token? i = some t) (hj : g.token? j = some u)
    (htu : t.identity = u.identity) : i = j := by
  have hi' := (h.indexed u.identity i).2 ⟨t, hi, htu⟩
  have hj' := (h.indexed u.identity j).2 ⟨u, hj, rfl⟩
  rw [hi'] at hj'
  exact Option.some.inj hj'

/-- What is found names the same object as the token that was looked for. -/
theorem Tree.find?_eq_some_iff (h : g.Tree) : g.find? t = some i ↔ ∃ a, g.token? i = some a ∧ a.identity = t.identity :=
  h.indexed t.identity i

/-- A graph contains a token exactly when one of its nodes names the same object. -/
theorem Tree.contains_iff (h : g.Tree) :
    g.contains t = true ↔ ∃ (i : Nat) (a : Token), g.token? i = some a ∧ a.identity = t.identity := by
  rw [contains, Option.isSome_iff_exists]
  exact exists_congr fun i => h.find?_eq_some_iff

/-- A node that has a child was found by it. -/
theorem Tree.found_of_child? (h : g.Tree) (hi : g.child? i = some c) : c < i ∧ g.levelOf i = g.levelOf c + 1 := by
  have hpos : 0 < i := by
    refine Nat.pos_of_ne_zero fun h0 => ?_
    rw [h0, h.bottom] at hi
    cases hi
  obtain ⟨c', hc', hlt, hlevel⟩ := h.found i hpos (lt_size_of_child? hi)
  rw [hi] at hc'
  cases hc'
  exact ⟨hlt, hlevel⟩

theorem Tree.lt_of_child? (h : g.Tree) (hi : g.child? i = some c) : c < i := (h.found_of_child? hi).1

theorem Tree.levelOf_of_child? (h : g.Tree) (hi : g.child? i = some c) : g.levelOf i = g.levelOf c + 1 :=
  (h.found_of_child? hi).2

/-- Induction over a tree from its root, each node after its child. -/
theorem Tree.climb (h : g.Tree) {motive : Nat → Prop} (root : motive 0)
    (step : ∀ i c, g.child? i = some c → motive c → motive i) (hi : i < g.size) : motive i := by
  induction i using Nat.strongRecOn with
  | _ i ih =>
    rcases Nat.eq_zero_or_pos i with rfl | hpos
    · exact root
    · obtain ⟨c, hc, hlt, -⟩ := h.found i hpos hi
      exact step i c hc (ih c hlt (Nat.lt_trans hlt hi))

/-- What is listed on the levels does not matter for the tree. -/
theorem Tree.congr (h : g.Tree) (hn : g'.nodes = g.nodes) (hi : g'.index = g.index) (hr : g'.root = g.root) : g'.Tree := by
  obtain ⟨_, _, _, _, _, _, _⟩ := g
  obtain ⟨_, _, _, _, _, _, _⟩ := g'
  subst hn
  subst hi
  subst hr
  exact ⟨h.root, h.bottom, h.ground, h.indexed, h.found, h.linked, h.increasing⟩

theorem tree_start (scope : Scope) (search : Search) (root : Token) : (start scope search root).Tree where
  root := rfl
  bottom := rfl
  ground := rfl
  indexed x i := by
    show (Table.empty.set root.identity 0).find? x = some i ↔ _
    rw [Table.find?_set, Table.find?_empty]
    match i with
    | 0 => simp [token?, node?, start, eq_comm]
    | i + 1 => simp [token?, node?, start]
  found i hi hlt := by
    have h1 : i < 1 := hlt
    omega
  linked c p := by
    match c, p with
    | 0, 0 => simp [parents, child?, node?, start]
    | 0, p + 1 => simp [parents, child?, node?, start]
    | c + 1, 0 => simp [parents, child?, node?, start]
    | c + 1, p + 1 => simp [parents, child?, node?, start]
  increasing c := by
    match c with
    | 0 => exact List.Pairwise.nil
    | c + 1 => simp [parents, node?, start]

/-- Attaching a parent to a node keeps the tree. -/
theorem Tree.attach (h : g.Tree) (hc : c < g.size) (b : Branch) (t : Token) : (g.attach c b t).Tree := by
  by_cases hg : g.contains t = true
  · rw [attach_of_contains hg]
    exact h
  rw [Bool.not_eq_true] at hg
  have hpos := h.size_pos
  have hnew : ∀ (i : Nat) u, g.token? i = some u → u.identity ≠ t.identity := by
    intro i u hi hu
    rw [h.contains_iff.2 ⟨i, u, hi, hu⟩] at hg
    cases hg
  have hlast : g.child? g.size = none := by
    rw [child?, node?_eq_none_iff.2 (Nat.le_refl _)]
    rfl
  have hroot := (extends_attach hc b t).root
  refine ⟨?_, ?_, ?_, ?_, ?_, ?_, ?_⟩
  · rw [token?_attach hc hg, if_neg (by omega), hroot, h.root]
  · rw [child?_attach hc hg, if_neg (by omega), h.bottom]
  · rw [levelOf_attach hc hg, if_neg (by omega), h.ground]
  · intro x i
    rw [index_attach hg, Table.find?_set, token?_attach hc hg]
    by_cases hx : x = t.identity
    · rw [if_pos hx]
      constructor
      · intro hi
        cases hi
        exact ⟨t, if_pos rfl, hx.symm⟩
      · rintro ⟨a, ha, hax⟩
        split at ha
        · next hi => rw [hi]
        · exact absurd (hax.trans hx) (hnew i a ha)
    · rw [if_neg hx, h.indexed]
      refine exists_congr fun a => and_congr_left fun hax => ?_
      split
      · next hi =>
        constructor
        · intro ha
          rw [hi] at ha
          exact absurd (lt_size_of_token? ha) (Nat.lt_irrefl _)
        · intro ha
          cases ha
          exact absurd hax.symm hx
      · rfl
  · intro i hi hlt
    rw [size_attach hg] at hlt
    rw [child?_attach hc hg, levelOf_attach hc hg]
    by_cases hs : i = g.size
    · refine ⟨c, if_pos hs, by omega, ?_⟩
      rw [if_pos hs, levelOf_attach hc hg, if_neg (by omega)]
    · obtain ⟨c', hc', hlt', hl⟩ := h.found i hi (by omega)
      refine ⟨c', by rw [if_neg hs, hc'], hlt', ?_⟩
      rw [if_neg hs, levelOf_attach hc hg, if_neg (by omega), hl]
  · intro d q
    rw [parents_attach hc hg, child?_attach hc hg]
    by_cases hq : q = g.size
    · subst hq
      rw [if_pos rfl]
      by_cases hd : d = c
      · subst hd
        simp
      · rw [if_neg hd, h.linked, hlast]
        simp [Ne.symm hd]
    · rw [if_neg hq, ← h.linked]
      by_cases hd : d = c
      · subst hd
        simp [hq]
      · rw [if_neg hd]
  · intro d
    rw [parents_attach hc hg]
    split
    · refine List.pairwise_append.2 ⟨h.increasing c, List.pairwise_singleton _ _, ?_⟩
      intro q hq r hr
      rw [List.mem_singleton.1 hr]
      exact lt_size_of_child? ((h.linked c q).1 hq)
    · exact h.increasing d

/-! ## On the way to the next level -/

/-- `g` is on the way from `g₀` to its next level: a tree that extends it, with all new nodes one level up. If there are no new nodes,
nothing has changed. -/
structure Rising (g₀ g : LevelGraph) : Prop where
  tree : g.Tree
  ext : g₀.Extends g
  fresh : ∀ i, g₀.size ≤ i → i < g.size → g.levelOf i = g₀.levelCount
  same : g = g₀ ∨ g₀.size < g.size

/-- A graph is on its own way. -/
theorem Tree.rising (h : g.Tree) : Rising g g :=
  ⟨h, Extends.refl g, fun _ hi hlt => absurd hlt (Nat.not_lt.2 hi), Or.inl rfl⟩

/-- Attaching a parent to a node of the last level keeps on the way. -/
theorem Rising.attach (h : Rising g g') (hc : c < g.size) (hl : g.levelOf c + 1 = g.levelCount) (b : Branch) (t : Token) :
    Rising g (g'.attach c b t) := by
  have hcg : c < g'.size := Nat.lt_of_lt_of_le hc h.ext.size
  refine ⟨h.tree.attach hcg b t, h.ext.trans (extends_attach hcg b t), fun i hi hlt => ?_,
    eq_or_lt_trans h.same (g'.attach_eq_or_lt c b t)⟩
  by_cases hg : g'.contains t = true
  · rw [attach_of_contains hg] at hlt ⊢
    exact h.fresh i hi hlt
  · rw [Bool.not_eq_true] at hg
    rw [size_attach hg] at hlt
    rw [levelOf_attach hcg hg]
    split
    · rw [h.ext.level c hc, hl]
    · exact h.fresh i hi (by omega)

/-- Attaching parents to a node of the last level keeps on the way. -/
theorem Rising.attachAll (h : Rising g g') (hc : c < g.size) (hl : g.levelOf c + 1 = g.levelCount) (b : Branch)
    (ts : List Token) : Rising g (g'.attachAll c b ts) := by
  induction ts generalizing g' with
  | nil => exact h
  | cons t ts ih => exact ih (h.attach hc hl b t)

end Lineage.LevelGraph
