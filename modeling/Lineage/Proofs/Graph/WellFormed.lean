import Lineage.Proofs.Graph.Levels

/-!
# Well-formed graphs

What holds of a graph at any time, also after an expansion that failed half-way and left nodes that are on no level: it is a tree
above its root, the levels list some of its nodes, each on its own level and no more than once, and the nodes stand in the order of
their levels. From this the ways down to the root, the tops and the bottoms follow.
-/

namespace Lineage.LevelGraph

/-- A tree whose levels list nodes of their level, each once. Nodes that are listed nowhere are one level up at most. -/
structure WellFormed (g : LevelGraph) : Prop extends Tree g where
  leveled : 0 < g.levelCount
  listed : ∀ (k : Nat) (ids : List Nat), g.level? k = some ids → ∀ i ∈ ids, i < g.size ∧ g.levelOf i = k
  nonempty : ∀ (k : Nat) (ids : List Nat), g.level? k = some ids → ids ≠ []
  once : g.levels.toList.flatten.Nodup
  low : ∀ i < g.size, g.levelOf i ≤ g.levelCount
  ordered : ∀ i j : Nat, i ≤ j → j < g.size → g.levelOf i ≤ g.levelOf j

/-- The node that is reached from a node by going to the child a number of times. -/
def descend (g : LevelGraph) : Nat → NodeId → Option NodeId
  | 0, i => some i
  | n + 1, i => (g.child? i).bind (g.descend n)

variable {g g' : LevelGraph} {i j k n : Nat} {ids : List NodeId}

/-! ## What keeps a graph well-formed -/

/-- The graph of a root alone is well-formed. -/
theorem wellFormed_start (scope : Scope) (search : Search) (root : Token) : (start scope search root).WellFormed where
  toTree := tree_start scope search root
  leveled := Nat.one_pos
  listed k ids hk i hi := ⟨(levelled_start scope search root).lt_size_iff.2 ⟨k, ids, hk, hi⟩,
    (levelled_start scope search root).onLevel k ids hk i hi⟩
  nonempty := (levelled_start scope search root).nonempty
  once := List.nodup_cons.2 ⟨List.not_mem_nil, List.nodup_nil⟩
  low i hi := by
    obtain rfl : i = 0 := Nat.lt_one_iff.1 hi
    exact Nat.zero_le _
  ordered i j hij hj := by
    obtain rfl : j = 0 := Nat.lt_one_iff.1 hj
    obtain rfl : i = 0 := Nat.le_zero.1 hij
    exact Nat.le_refl _

/-- Whether there is more does not matter. -/
theorem WellFormed.quiet (h : g.WellFormed) : g.quiet.WellFormed :=
  ⟨h.toTree.congr rfl rfl rfl, h.leveled, h.listed, h.nonempty, h.once, h.low, h.ordered⟩

/-- The nodes that are asked about next are on the last level. -/
theorem WellFormed.of_mem_frontier (h : g.WellFormed) (hi : i ∈ g.frontier) : i < g.size ∧ g.levelOf i + 1 = g.levelCount := by
  have hpos := h.leveled
  obtain ⟨hlt, hlevel⟩ := h.listed _ _ (level?_frontier hpos) i hi
  exact ⟨hlt, by omega⟩

/-- A graph on the way to its next level is well-formed, whether it gets there or not. -/
theorem WellFormed.of_rising (h : g.WellFormed) (hr : Rising g g') : g'.WellFormed := by
  have hlevels : ∀ k, g'.level? k = g.level? k := fun k => by rw [level?, level?, hr.ext.levels]
  have hcount : g'.levelCount = g.levelCount := congrArg Array.size hr.ext.levels
  have hlow : ∀ i < g'.size, g'.levelOf i ≤ g.levelCount := by
    intro i hi
    by_cases hold : i < g.size
    · rw [hr.ext.level i hold]
      exact h.low i hold
    · exact Nat.le_of_eq (hr.fresh i (Nat.le_of_not_lt hold) hi)
  refine ⟨hr.tree, hcount ▸ h.leveled, fun k ids hk i hi => ?_, fun k ids hk => ?_, ?_, hcount ▸ hlow, fun i j hij hj => ?_⟩
  · rw [hlevels] at hk
    obtain ⟨hlt, hlevel⟩ := h.listed k ids hk i hi
    exact ⟨Nat.lt_of_lt_of_le hlt hr.ext.size, by rw [hr.ext.level i hlt, hlevel]⟩
  · rw [hlevels] at hk
    exact h.nonempty k ids hk
  · rw [hr.ext.levels]
    exact h.once
  · by_cases hold : j < g.size
    · rw [hr.ext.level i (by omega), hr.ext.level j hold]
      exact h.ordered i j hij hold
    · rw [hr.fresh j (Nat.le_of_not_lt hold) hj]
      exact hlow i (by omega)

/-- The nodes that were added become a level, and the graph stays well-formed. -/
theorem WellFormed.close (h : g.WellFormed) (hr : Rising g g') : (g'.closeLevel g.size).WellFormed := by
  have hw := h.of_rising hr
  rcases Nat.lt_or_ge g.size g'.size with hlt | hle
  · rw [closeLevel_of_lt hlt]
    refine ⟨hw.toTree.congr rfl rfl rfl, ?_, fun k ids hk i hi => ?_, fun k ids hk => ?_, ?_, fun i hi => ?_, hw.ordered⟩
    · simp [levelCount]
    · simp only [level?, Array.getElem?_push] at hk
      split at hk
      · next hk' =>
        cases hk
        rw [List.mem_range'_1] at hi
        refine ⟨by show i < g'.size; omega, ?_⟩
        rw [hk', ← levelCount, levelCount, hr.ext.levels]
        exact hr.fresh i hi.1 (by omega)
      · exact hw.listed k ids hk i hi
    · simp only [level?, Array.getElem?_push] at hk
      split at hk
      · cases hk
        rw [Ne, List.range'_eq_nil_iff]
        omega
      · exact hw.nonempty k ids hk
    · rw [Array.toList_push, List.flatten_append, List.flatten_singleton, List.nodup_append]
      refine ⟨hw.once, List.nodup_range', fun i hi j hj hij => ?_⟩
      -- what was listed before is older than what is listed now
      obtain ⟨k, ids, hk, hmem⟩ := mem_flatten_iff.1 hi
      rw [hr.ext.levels, Array.getElem?_toList] at hk
      have hold := (h.listed k ids hk i hmem).1
      rw [List.mem_range'_1, ← hij] at hj
      exact absurd hold (Nat.not_lt.2 hj.1)
    · have := hw.low i hi
      simp only [levelCount, Array.size_push]
      exact Nat.le_succ_of_le this
  · rw [closeLevel_of_le hle]
    exact hw

/-! ## Ways down, tops and bottoms -/

/-- From a node on level `k` the root is reached in `k` steps, and in no other number of steps. -/
theorem Tree.descend_eq_root_iff (h : g.Tree) (hi : i < g.size) : g.descend n i = some 0 ↔ n = g.levelOf i := by
  induction n generalizing i with
  | zero =>
    rw [descend, Option.some.injEq]
    constructor
    · rintro rfl
      exact h.ground.symm
    · intro h0
      refine Nat.eq_zero_of_not_pos fun hpos => ?_
      obtain ⟨c, -, -, hlevel⟩ := h.found i hpos hi
      omega
  | succ n ih =>
    rw [descend]
    cases hc : g.child? i with
    | none =>
      have h0 : i = 0 := by
        refine Nat.eq_zero_of_not_pos fun hpos => ?_
        obtain ⟨c, hc', -⟩ := h.found i hpos hi
        rw [hc] at hc'
        cases hc'
      rw [h0, h.ground]
      simp
    | some c =>
      have hlevel := h.levelOf_of_child? hc
      rw [Option.bind_some, ih (Nat.lt_trans (h.lt_of_child? hc) hi), hlevel]
      omega

/-- A node without a child is the root. -/
theorem Tree.child?_eq_none_iff (h : g.Tree) (hi : i < g.size) : g.child? i = none ↔ i = 0 := by
  constructor
  · intro hc
    refine Nat.eq_zero_of_not_pos fun hpos => ?_
    obtain ⟨c, hc', -⟩ := h.found i hpos hi
    rw [hc] at hc'
    cases hc'
  · rintro rfl
    exact h.bottom

/-- The root is the only bottom. -/
theorem Tree.bottoms_eq (h : g.Tree) : g.bottoms = [0] := by
  have hids : g.ids = 0 :: List.range' 1 (g.size - 1) := by
    obtain ⟨n, hn⟩ : ∃ n, g.size = n + 1 := ⟨g.size - 1, by have := h.size_pos; omega⟩
    rw [ids, hn, List.range_eq_range', List.range'_succ]
    rfl
  rw [bottoms, hids, List.filter_cons_of_pos (by rw [h.bottom]; rfl), List.cons.injEq]
  refine ⟨rfl, List.filter_eq_nil_iff.2 fun i hi hc => ?_⟩
  rw [List.mem_range'_1] at hi
  have := (h.child?_eq_none_iff (by omega)).1 (Option.isNone_iff_eq_none.1 hc)
  omega

/-- The last node that was found has no parents. -/
theorem Tree.exists_mem_tops (h : g.Tree) : ∃ i, i ∈ g.tops := by
  have hpos := h.size_pos
  refine ⟨g.size - 1, List.mem_filter.2 ⟨List.mem_range.2 (by omega), ?_⟩⟩
  rw [List.isEmpty_iff, List.eq_nil_iff_forall_not_mem]
  intro p hp
  have hchild := (h.linked _ p).1 hp
  have := h.lt_of_child? hchild
  have := lt_size_of_child? hchild
  omega

/-- A node that was found is once among the parents of its child, and among the parents of no other node. -/
theorem Tree.count_parents (h : g.Tree) {c : Nat} (hi : g.child? i = some c) (d : Nat) :
    (g.parents d).count i = if d = c then 1 else 0 := by
  split
  · next hd =>
    rw [hd]
    have hmem := (h.linked c i).2 hi
    have hone := List.nodup_iff_count.1 ((h.increasing c).imp Nat.ne_of_lt) i
    have hpos := List.count_pos_iff.2 hmem
    omega
  · next hd =>
    refine List.count_eq_zero.2 fun hmem => hd ?_
    have hchild := (h.linked d i).1 hmem
    rw [hi] at hchild
    exact (Option.some.inj hchild).symm

end Lineage.LevelGraph
