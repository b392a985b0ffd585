import Lineage.Proofs.Graph.Tree

/-!
# Levels: what one expansion adds

`next f g` is the graph after one expansion in which every question is answered by the ancestry `f`. A graph is charted when it is a
tree of parents whose levels list every node once, and every node below the last level has all its parents in the graph, none of them
more than one level above it. An expansion keeps a graph charted: it adds one level, or it finds that there is none and then every
parent of every node is in the graph.
-/

namespace Lineage.LevelGraph

/-- The graph after a question about one of its nodes was answered by an ancestry. -/
def attachAnswer (f : Ancestry) (g : LevelGraph) (q : NodeId × Branch) : LevelGraph :=
  match g.token? q.1 with
  | none => g
  | some t => g.attachAll q.1 q.2 ((f.onBranch q.2 t.identity).getD [])

/-- The graph after questions were answered by an ancestry, one after the other. -/
def answered (f : Ancestry) (g : LevelGraph) (qs : List (NodeId × Branch)) : LevelGraph := qs.foldl (attachAnswer f) g

/-- The graph before it is known whether there is one more level. -/
def quiet (g : LevelGraph) : LevelGraph := { g with more := false }

/-- The graph after one expansion in which every question was answered by an ancestry. -/
def next (f : Ancestry) (g : LevelGraph) : LevelGraph := (g.quiet.answered f g.quiet.questions).closeLevel g.quiet.size

/-- Every parent of a node is in the graph, not more than one level above it. -/
def Closed (f : Ancestry) (g : LevelGraph) (i : Nat) : Prop :=
  ∀ t, g.token? i = some t → ∀ y, f.Parent g.search t.identity y →
    ∃ (j : Nat) (u : Token), g.token? j = some u ∧ u.identity = y ∧ g.levelOf j ≤ g.levelOf i + 1

/-- Every node was found by a node that has it as a parent. -/
def Upward (f : Ancestry) (g : LevelGraph) : Prop :=
  ∀ (i c : Nat) (t u : Token), g.child? i = some c → g.token? i = some t → g.token? c = some u →
    f.Parent g.search u.identity t.identity

/-- The levels list the nodes in order, each once and on its own level. -/
structure Levelled (g : LevelGraph) : Prop where
  listed : g.levels.toList.flatten = List.range g.size
  onLevel : ∀ (k : Nat) (ids : List Nat), g.level? k = some ids → ∀ i ∈ ids, g.levelOf i = k
  nonempty : ∀ (k : Nat) ids, g.level? k = some ids → ids ≠ []

/-- A tree of parents, level by level, in which every node below the last level has all its parents. -/
structure Charted (f : Ancestry) (g : LevelGraph) : Prop where
  tree : g.Tree
  upward : g.Upward f
  levelled : g.Levelled
  closed : ∀ i : Nat, g.levelOf i + 1 < g.levelCount → g.Closed f i

/-- A charted graph in which every node has all its parents. -/
structure Complete (f : Ancestry) (g : LevelGraph) : Prop extends Charted f g where
  closed_all : ∀ i : Nat, g.Closed f i

variable {f : Ancestry} {g g₀ g' : LevelGraph} {i j k c n : Nat} {b : Branch} {t u : Token} {ids : List NodeId}

/-! ## Levels as lists of nodes -/

theorem mem_flatten_iff {L : List (List Nat)} :
    i ∈ L.flatten ↔ ∃ (k : Nat) (ids : List Nat), L[k]? = some ids ∧ i ∈ ids := by
  rw [List.mem_flatten]
  constructor
  · rintro ⟨ids, hids, hi⟩
    obtain ⟨k, hk⟩ := List.mem_iff_getElem?.1 hids
    exact ⟨k, ids, hk, hi⟩
  · rintro ⟨k, ids, hk, hi⟩
    exact ⟨ids, List.mem_of_getElem? hk, hi⟩

/-- A node is on one of the levels. -/
theorem Levelled.lt_size_iff (h : g.Levelled) :
    i < g.size ↔ ∃ (k : Nat) (ids : List NodeId), g.level? k = some ids ∧ i ∈ ids := by
  rw [← List.mem_range, ← h.listed, mem_flatten_iff]
  simp only [level?, Array.getElem?_toList]

/-- A level lists exactly the nodes that are on it. -/
theorem Levelled.mem_iff (h : g.Levelled) (hk : g.level? k = some ids) : i ∈ ids ↔ i < g.size ∧ g.levelOf i = k := by
  constructor
  · intro hi
    exact ⟨h.lt_size_iff.2 ⟨k, ids, hk, hi⟩, h.onLevel k ids hk i hi⟩
  · rintro ⟨hi, hl⟩
    obtain ⟨k', ids', hk', hi'⟩ := h.lt_size_iff.1 hi
    have hkk : k' = k := (h.onLevel k' ids' hk' i hi').symm.trans hl
    subst hkk
    rw [hk] at hk'
    cases hk'
    exact hi'

theorem lt_levelCount_of_level? (h : g.level? k = some ids) : k < g.levelCount :=
  (Array.getElem?_eq_some_iff.1 h).1

theorem isSome_level?_iff : (g.level? k).isSome ↔ k < g.levelCount := by
  rw [Option.isSome_iff_exists]
  exact ⟨fun ⟨_, h⟩ => lt_levelCount_of_level? h, fun h => ⟨_, Array.getElem?_eq_getElem h⟩⟩

/-- A node is on a level of the graph. -/
theorem Levelled.levelOf_lt (h : g.Levelled) (hi : i < g.size) : g.levelOf i < g.levelCount := by
  obtain ⟨k, ids, hk, hmem⟩ := h.lt_size_iff.1 hi
  rw [h.onLevel k ids hk i hmem]
  exact lt_levelCount_of_level? hk

/-- Every level has a node. -/
theorem Levelled.exists_node (h : g.Levelled) (hk : k < g.levelCount) : ∃ i, i < g.size ∧ g.levelOf i = k := by
  have hids : g.level? k = some g.levels[k] := Array.getElem?_eq_getElem hk
  obtain ⟨i, hi⟩ := List.exists_mem_of_ne_nil _ (h.nonempty k _ hids)
  exact ⟨i, (h.mem_iff hids).1 hi⟩

/-- The nodes that are asked about next are listed on the last level. -/
theorem level?_frontier (hpos : 0 < g.levelCount) : g.level? (g.levelCount - 1) = some g.frontier := by
  have hlt : g.levels.size - 1 < g.levels.size := Nat.sub_lt hpos Nat.one_pos
  simp only [level?, levelCount, frontier, Array.back?, Array.getElem?_eq_getElem hlt, Option.getD_some]

/-- The nodes that are asked about next are those of the last level. -/
theorem Levelled.mem_frontier_iff (h : g.Levelled) (hpos : 0 < g.levelCount) :
    i ∈ g.frontier ↔ i < g.size ∧ g.levelOf i + 1 = g.levelCount := by
  rw [h.mem_iff (level?_frontier hpos)]
  constructor
  · rintro ⟨hi, hl⟩
    exact ⟨hi, by omega⟩
  · rintro ⟨hi, hl⟩
    exact ⟨hi, by omega⟩

theorem levelled_start (scope : Scope) (search : Search) (root : Token) : (start scope search root).Levelled where
  listed := rfl
  onLevel k ids hk i hi := by
    have hk0 : k < 1 := lt_levelCount_of_level? hk
    obtain rfl : k = 0 := by omega
    cases hk
    rw [List.mem_singleton.1 hi]
    rfl
  nonempty k ids hk := by
    have hk0 : k < 1 := lt_levelCount_of_level? hk
    obtain rfl : k = 0 := by omega
    cases hk
    exact List.cons_ne_nil _ _

/-- The graph of a root alone is charted: its only level is the last one. -/
theorem charted_start (f : Ancestry) (scope : Scope) (search : Search) (root : Token) :
    (start scope search root).Charted f where
  tree := tree_start scope search root
  upward i c t u hc _ _ := by
    have hlt := (tree_start scope search root).lt_of_child? hc
    have hi : i < 1 := lt_size_of_child? hc
    omega
  levelled := levelled_start scope search root
  closed i hi := by
    have h1 : (start scope search root).levelCount = 1 := rfl
    omega

/-! ## While the questions of an expansion are answered -/

/-- `g` is on the way from `g₀` to its next level, and every node was found by one that has it as a parent. -/
structure Filling (f : Ancestry) (g₀ g : LevelGraph) : Prop extends Rising g₀ g where
  upward : g.Upward f

/-- Attaching a parent of a node of the last level keeps on the way. -/
theorem Filling.attach (h : Filling f g₀ g) (hc : c < g₀.size) (hl : g₀.levelOf c + 1 = g₀.levelCount)
    (hu : g.token? c = some u) (ht : f.Parent g.search u.identity t.identity) : Filling f g₀ (g.attach c b t) := by
  have hcg : c < g.size := lt_size_of_token? hu
  by_cases hg : g.contains t = true
  · rw [attach_of_contains hg]
    exact h
  rw [Bool.not_eq_true] at hg
  refine ⟨h.toRising.attach hc hl b t, fun i d a v hd ha hv => ?_⟩
  rw [child?_attach hcg hg] at hd
  rw [token?_attach hcg hg] at ha hv
  rw [(extends_attach hcg b t).search]
  split at hd
  · next hi =>
    cases hd
    rw [if_pos hi] at ha
    rw [if_neg (by omega), hu] at hv
    cases ha
    cases hv
    exact ht
  · next hi =>
    have hdi := h.tree.lt_of_child? hd
    have hig := lt_size_of_child? hd
    rw [if_neg hi] at ha
    rw [if_neg (by omega)] at hv
    exact h.upward i d a v hd ha hv

/-- Attaching parents of a node of the last level keeps on the way, and afterwards the graph has them. -/
theorem Filling.attachAll (h : Filling f g₀ g) (hc : c < g₀.size) (hl : g₀.levelOf c + 1 = g₀.levelCount)
    (hu : g.token? c = some u) (ts : List Token) (hts : ∀ t ∈ ts, f.Parent g.search u.identity t.identity) :
    Filling f g₀ (g.attachAll c b ts) ∧ g.Extends (g.attachAll c b ts) ∧
      ∀ t ∈ ts, (g.attachAll c b ts).contains t = true := by
  induction ts generalizing g with
  | nil => exact ⟨h, Extends.refl g, fun t ht => absurd ht List.not_mem_nil⟩
  | cons t ts ih =>
    have hcg : c < g.size := lt_size_of_token? hu
    have he := extends_attach hcg b t
    have hf : Filling f g₀ (g.attach c b t) := h.attach hc hl hu (hts t List.mem_cons_self)
    obtain ⟨hf', he', hall⟩ := ih hf (he.token?_eq hu) fun a ha => by
      rw [he.search]
      exact hts a (List.mem_cons_of_mem t ha)
    refine ⟨hf', he.trans he', fun a ha => ?_⟩
    rcases List.mem_cons.1 ha with rfl | ha
    · have hself : (g.attach c b a).contains a = true := by
        by_cases hg : g.contains a = true
        · rwa [attach_of_contains hg]
        · rw [Bool.not_eq_true] at hg
          exact hf.tree.contains_iff.2 ⟨g.size, a, by rw [token?_attach hcg hg, if_pos rfl], rfl⟩
      obtain ⟨i, v, hi, hv⟩ := hf.tree.contains_iff.1 hself
      exact hf'.tree.contains_iff.2 ⟨i, v, he'.token?_eq hi, hv⟩
    · exact hall a ha

/-- Once questions about nodes of the last level were answered, the graph has all parents that were named. -/
theorem Filling.answered (h : Filling f g₀ g) (qs : List (NodeId × Branch))
    (hqs : ∀ q ∈ qs, q.1 < g₀.size ∧ g₀.levelOf q.1 + 1 = g₀.levelCount ∧ q.2 ∈ g₀.search.branches) :
    Filling f g₀ (g.answered f qs) ∧ g.Extends (g.answered f qs) ∧
      ∀ q ∈ qs, ∀ u, g.token? q.1 = some u → ∀ t ∈ (f.onBranch q.2 u.identity).getD [],
        (g.answered f qs).contains t = true := by
  induction qs generalizing g with
  | nil => exact ⟨h, Extends.refl g, fun q hq => absurd hq List.not_mem_nil⟩
  | cons q qs ih =>
    obtain ⟨hq, hl, hb⟩ := hqs q List.mem_cons_self
    obtain ⟨u, hu⟩ := exists_token?_iff.2 (Nat.lt_of_lt_of_le hq h.ext.size)
    have hstep : g.attachAnswer f q = g.attachAll q.1 q.2 ((f.onBranch q.2 u.identity).getD []) := by
      rw [attachAnswer, hu]
    obtain ⟨hf, he, hall⟩ := h.attachAll (b := q.2) hq hl hu ((f.onBranch q.2 u.identity).getD [])
      fun t ht => Ancestry.parent_iff.2 ⟨q.2, h.ext.search ▸ hb, t, ht, rfl⟩
    rw [← hstep] at hf he hall
    obtain ⟨hf', he', hall'⟩ := ih hf fun q' hq' => hqs q' (List.mem_cons_of_mem q hq')
    refine ⟨hf', he.trans he', fun q' hq' v hv t ht => ?_⟩
    rcases List.mem_cons.1 hq' with rfl | hq'
    · rw [hu] at hv
      cases hv
      obtain ⟨i, a, hi, ha⟩ := hf.tree.contains_iff.1 (hall t ht)
      exact hf'.tree.contains_iff.2 ⟨i, a, he'.token?_eq hi, ha⟩
    · exact hall' q' hq' v (he.token?_eq hv) t ht

/-- Answers that attach no node change nothing. -/
theorem answered_eq_or_lt (f : Ancestry) (g : LevelGraph) (qs : List (NodeId × Branch)) :
    g.answered f qs = g ∨ g.size < (g.answered f qs).size := by
  induction qs generalizing g with
  | nil => exact Or.inl rfl
  | cons q qs ih =>
    have hstep : g.attachAnswer f q = g ∨ g.size < (g.attachAnswer f q).size := by
      unfold attachAnswer
      split
      · exact Or.inl rfl
      · exact g.attachAll_eq_or_lt _ _ _
    exact eq_or_lt_trans hstep (ih (g.attachAnswer f q))

/-! ## One expansion -/

/-- The questions of an expansion are about the nodes of the last level, on the branches of the search. -/
theorem mem_questions_iff {q : NodeId × Branch} : q ∈ g.questions ↔ q.1 ∈ g.frontier ∧ q.2 ∈ g.search.branches := by
  obtain ⟨i, b⟩ := q
  simp only [questions, List.mem_flatMap, List.mem_map, Prod.mk.injEq]
  constructor
  · rintro ⟨i', hi, b', hb, rfl, rfl⟩
    exact ⟨hi, hb⟩
  · rintro ⟨hi, hb⟩
    exact ⟨i, hi, b, hb, rfl, rfl⟩

theorem closed_of_extends (h : g.Extends g') (hi : i < g.size) (hc : g.Closed f i) : g'.Closed f i := by
  intro t ht y hy
  rw [h.token i hi] at ht
  rw [h.search] at hy
  obtain ⟨j, u, hu, hy, hl⟩ := hc t ht y hy
  refine ⟨j, u, h.token?_eq hu, hy, ?_⟩
  rw [h.level j (lt_size_of_token? hu), h.level i hi]
  exact hl

/-- A charted graph has a level. -/
theorem Charted.levelCount_pos (h : g.Charted f) : 0 < g.levelCount :=
  Nat.zero_lt_of_lt (h.levelled.levelOf_lt h.tree.size_pos)

/-- The questions about the last level of a charted graph, answered: the graph is on the way to its next level, and every node
below that level has its parents. -/
theorem Charted.answered (h : g.Charted f) :
    Filling f g (g.answered f g.questions) ∧
      ∀ i : Nat, (g.answered f g.questions).levelOf i < g.levelCount → (g.answered f g.questions).Closed f i := by
  have hpos := h.levelCount_pos
  have h0 : Filling f g g := ⟨h.tree.rising, h.upward⟩
  obtain ⟨hf, -, hall⟩ := h0.answered g.questions fun q hq => by
    obtain ⟨hq, hb⟩ := mem_questions_iff.1 hq
    obtain ⟨hlt, hl⟩ := (h.levelled.mem_frontier_iff hpos).1 hq
    exact ⟨hlt, hl, hb⟩
  refine ⟨hf, fun i hi t ht y hy => ?_⟩
  by_cases hlt : i < g.size
  · have hil : g.levelOf i < g.levelCount := h.levelled.levelOf_lt hlt
    rcases Nat.lt_or_eq_of_le (Nat.succ_le_of_lt hil) with hlow | htop
    · exact closed_of_extends hf.ext hlt (h.closed i hlow) t ht y hy
    · rw [hf.ext.search] at hy
      obtain ⟨b, hb, p, hp, rfl⟩ := Ancestry.parent_iff.1 hy
      rw [hf.ext.token i hlt] at ht
      have hq : (i, b) ∈ g.questions :=
        mem_questions_iff.2 ⟨(h.levelled.mem_frontier_iff hpos).2 ⟨hlt, htop⟩, hb⟩
      obtain ⟨j, u, hu, hup⟩ := hf.tree.contains_iff.1 (hall (i, b) hq t ht p hp)
      refine ⟨j, u, hu, hup, ?_⟩
      rw [hf.ext.level i hlt]
      by_cases hj : j < g.size
      · rw [hf.ext.level j hj]
        have := h.levelled.levelOf_lt hj
        omega
      · rw [hf.fresh j (by omega) (lt_size_of_token? hu)]
        omega
  · rw [hf.fresh i (by omega) (lt_size_of_token? ht)] at hi
    exact absurd hi (Nat.lt_irrefl _)

theorem closeLevel_of_lt (h : n < g.size) :
    g.closeLevel n = { g with levels := g.levels.push (List.range' n (g.size - n)), more := true } := if_pos h

theorem closeLevel_of_le (h : g.size ≤ n) : g.closeLevel n = g := if_neg (Nat.not_lt.2 h)

/-- Closing a level changes nothing but the levels. -/
theorem exists_closeLevel_eq (g : LevelGraph) (n : Nat) : ∃ levels more, g.closeLevel n = { g with levels, more } := by
  rcases Nat.lt_or_ge n g.size with hlt | hle
  · exact ⟨_, _, closeLevel_of_lt hlt⟩
  · exact ⟨g.levels, g.more, closeLevel_of_le hle⟩

/-- Nodes that were added to a graph become its next level. -/
theorem Levelled.close (h : g₀.Levelled) (he : g₀.Extends g)
    (hfresh : ∀ i, g₀.size ≤ i → i < g.size → g.levelOf i = g₀.levelCount) (hlt : g₀.size < g.size) :
    (g.closeLevel g₀.size).Levelled := by
  rw [closeLevel_of_lt hlt]
  refine ⟨?_, fun k ids hk i hi => ?_, fun k ids hk => ?_⟩
  · show (g.levels.push (List.range' g₀.size (g.size - g₀.size))).toList.flatten = List.range g.size
    have happ : List.range' 0 g₀.size ++ List.range' (0 + g₀.size) (g.size - g₀.size) = _ := List.range'_append_1
    rw [Nat.zero_add, Nat.add_sub_cancel' he.size] at happ
    rw [Array.toList_push, List.flatten_append, he.levels, h.listed, List.flatten_singleton, List.range_eq_range',
      List.range_eq_range', happ]
  · show g.levelOf i = k
    simp only [level?, Array.getElem?_push] at hk
    split at hk
    · next hk' =>
      cases hk
      rw [List.mem_range'_1] at hi
      rw [hfresh i hi.1 (by omega), hk', he.levels]
      rfl
    · rw [he.levels] at hk
      have hi' := (h.mem_iff hk).1 hi
      rw [he.level i hi'.1, hi'.2]
  · simp only [level?, Array.getElem?_push] at hk
    split at hk
    · cases hk
      rw [Ne, List.range'_eq_nil_iff]
      omega
    · rw [he.levels] at hk
      exact h.nonempty k ids hk

/-- The next level of a charted graph is closed, or there is none and the graph is complete. -/
theorem Charted.close (h : g₀.Charted f) (hf : Filling f g₀ g)
    (hcl : ∀ i : Nat, g.levelOf i < g₀.levelCount → g.Closed f i) :
    (g₀.size < g.size ∧ (g.closeLevel g₀.size).Charted f) ∨
      (g.closeLevel g₀.size = g ∧ g.Complete f) := by
  rcases Nat.lt_or_eq_of_le hf.ext.size with hlt | heq
  · refine Or.inl ⟨hlt, ?_, ?_, h.levelled.close hf.ext hf.fresh hlt, ?_⟩
    · rw [closeLevel_of_lt hlt]
      exact hf.tree.congr rfl rfl rfl
    · rw [closeLevel_of_lt hlt]
      exact hf.upward
    · intro i hi
      rw [closeLevel_of_lt hlt] at hi ⊢
      refine hcl i ?_
      simp only [levelCount, Array.size_push, hf.ext.levels] at hi
      exact Nat.lt_of_succ_lt_succ hi
  · have hlevel : ∀ i < g.size, g.levelOf i = g₀.levelOf i := fun i hi => hf.ext.level i (by omega)
    have hlevels : ∀ k, g.level? k = g₀.level? k := fun k => by rw [level?, level?, hf.ext.levels]
    have hlv : g.Levelled := by
      refine ⟨?_, fun k ids hk i hi => ?_, fun k ids hk => ?_⟩
      · rw [hf.ext.levels, h.levelled.listed, heq]
      · rw [hlevels] at hk
        have hi' := (h.levelled.mem_iff hk).1 hi
        rw [hlevel i (by omega), hi'.2]
      · rw [hlevels] at hk
        exact h.levelled.nonempty k ids hk
    have hall : ∀ i : Nat, g.Closed f i := by
      intro i t ht
      have hi : i < g₀.size := by
        rw [heq]
        exact lt_size_of_token? ht
      exact hcl i (by rw [hf.ext.level i hi]; exact h.levelled.levelOf_lt hi) t ht
    exact Or.inr ⟨closeLevel_of_le (Nat.le_of_eq heq.symm), ⟨hf.tree, hf.upward, hlv, fun i _ => hall i⟩, hall⟩

/-- Whether there is more does not matter. -/
theorem Charted.quiet (h : g.Charted f) : g.quiet.Charted f :=
  ⟨h.tree.congr rfl rfl rfl, h.upward, ⟨h.levelled.listed, h.levelled.onLevel, h.levelled.nonempty⟩, h.closed⟩

/-- An expansion of a charted graph finds one more level, or finds that every node has all its parents in the graph. -/
theorem Charted.next (h : g.Charted f) :
    (g.next f).Charted f ∧ (g.next f).search = g.search ∧ (g.next f).root = g.root ∧
      (((g.next f).more = true ∧ (g.next f).levelCount = g.levelCount + 1) ∨
        ((g.next f).more = false ∧ (g.next f).levelCount = g.levelCount ∧ (g.next f).Complete f)) := by
  have h0 : g.quiet.Charted f := h.quiet
  obtain ⟨hf, hcl⟩ := h0.answered
  have hsearch : _ = g.search := hf.ext.search
  have hroot : _ = g.root := hf.ext.root
  have hcount : _ = g.levels.size := congrArg Array.size hf.ext.levels
  have hmore : _ = false := hf.ext.more
  rcases h0.close hf hcl with ⟨hlt, hc⟩ | ⟨heq, hc⟩
  · refine ⟨hc, ?_, ?_, Or.inl ⟨?_, ?_⟩⟩
    all_goals rw [LevelGraph.next, closeLevel_of_lt hlt]
    · exact hsearch
    · exact hroot
    · rw [levelCount, Array.size_push]
      exact congrArg (· + 1) hcount
  · rw [LevelGraph.next, heq]
    exact ⟨hc.toCharted, hsearch, hroot, Or.inr ⟨hmore, hcount, hc⟩⟩

end Lineage.LevelGraph
