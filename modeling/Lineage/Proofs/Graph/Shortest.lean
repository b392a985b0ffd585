import Lineage.Proofs.Graph.Growth
import Lineage.Proofs.Sources

/-!
# The levels of a graph are distances

In a charted graph every node is reached by a chain as long as its level is high, and no chain leads to it that is shorter. A complete
graph has everything that is reached from its root, and what is on level `n` is what is at distance `n`. So the building of a graph
from sources that never fail ends with the ancestors of its root, unless one of them is further away than the deepest level.
-/

namespace Lineage.LevelGraph

/-- The identities that nodes name, in order. -/
def names (g : LevelGraph) (ids : List NodeId) : List Identity := (g.tokens ids).map (·.identity)

variable {f : Ancestry} {g : LevelGraph} {search : Search} {i k n : Nat} {t root : Token} {x : Identity} {ids : List NodeId}

/-! ## What nodes name -/

theorem mem_names_iff : x ∈ g.names ids ↔ ∃ i ∈ ids, ∃ t, g.token? i = some t ∧ t.identity = x := by
  simp only [names, tokens, List.mem_map, List.mem_filterMap]
  constructor
  · rintro ⟨t, ⟨i, hi, ht⟩, hx⟩
    exact ⟨i, hi, t, ht, hx⟩
  · rintro ⟨i, hi, t, ht, hx⟩
    exact ⟨t, ⟨i, hi, ht⟩, hx⟩

theorem names_append (g : LevelGraph) (ids ids' : List NodeId) : g.names (ids ++ ids') = g.names ids ++ g.names ids' := by
  simp only [names, tokens, List.filterMap_append, List.map_append]

theorem names_cons (g : LevelGraph) (ht : g.token? i = some t) : g.names (i :: ids) = t.identity :: g.names ids := by
  rw [names, tokens, List.filterMap_cons_some ht, List.map_cons]
  rfl

/-- A tree names nothing twice. -/
theorem Tree.nodup_names (h : g.Tree) (hids : ids.Nodup) : (g.names ids).Nodup := by
  induction ids with
  | nil => exact List.nodup_nil
  | cons i ids ih =>
    obtain ⟨hi, hids⟩ := List.nodup_cons.1 hids
    cases ht : g.token? i with
    | none =>
      rw [names, tokens, List.filterMap_cons_none ht]
      exact ih hids
    | some t =>
      rw [g.names_cons ht]
      refine List.nodup_cons.2 ⟨fun hx => ?_, ih hids⟩
      obtain ⟨j, hj, u, hu, hut⟩ := mem_names_iff.1 hx
      rw [h.distinct j i u t hu ht hut] at hj
      exact hi hj

/-- The levels together name what the nodes name, in the order of the nodes. -/
theorem Levelled.names_eq (h : g.Levelled) : g.levels.toList.flatMap g.names = g.names (List.range g.size) := by
  rw [← h.listed]
  induction g.levels.toList with
  | nil => rfl
  | cons ids L ih =>
    rw [List.flatMap_cons, List.flatten_cons, ih, names_append]

/-! ## Levels and distances -/

/-- A node is reached by a chain of as many steps as its level says. -/
theorem Charted.chain (h : g.Charted f) (ht : g.token? i = some t) :
    f.Chain g.search (g.levelOf i) g.root.identity t.identity := by
  refine h.tree.climb (motive := fun i => ∀ t, g.token? i = some t →
    f.Chain g.search (g.levelOf i) g.root.identity t.identity)
    (fun t ht => ?_) (fun i c hc ih t ht => ?_) (lt_size_of_token? ht) t ht
  · rw [h.tree.root] at ht
    cases ht
    rw [h.tree.ground]
    exact Ancestry.Chain.refl _
  · obtain ⟨u, hu⟩ := exists_token?_iff.2 (Nat.lt_trans (h.tree.lt_of_child? hc) (lt_size_of_token? ht))
    rw [h.tree.levelOf_of_child? hc]
    exact (ih u hu).snoc (h.upward i c t u hc ht hu)

/-- Where a chain from the root leads, there is a node that is no higher than the chain is long, if the nodes on the way are closed. -/
theorem Charted.exists_node_of_chain (h : g.Charted f) (hcl : ∀ i : Nat, g.levelOf i < n → g.Closed f i)
    (hx : f.Chain g.search n g.root.identity x) :
    ∃ (i : Nat) (t : Token), g.token? i = some t ∧ t.identity = x ∧ g.levelOf i ≤ n := by
  induction n generalizing x with
  | zero => exact ⟨0, g.root, h.tree.root, hx.eq_of_zero.symm, Nat.le_of_eq h.tree.ground⟩
  | succ n ih =>
    obtain ⟨y, hy, hp⟩ := hx.last
    obtain ⟨i, t, ht, rfl, hle⟩ := ih (fun i hi => hcl i (by omega)) hy
    obtain ⟨j, u, hu, hux, hlj⟩ := hcl i (by omega) t ht x hp
    exact ⟨j, u, hu, hux, by omega⟩

/-- The level of a node is its distance. -/
theorem Charted.distance (h : g.Charted f) (ht : g.token? i = some t) :
    f.Distance g.search (g.levelOf i) g.root.identity t.identity := by
  refine ⟨h.chain ht, fun m hm => Nat.le_of_not_lt fun hlt => ?_⟩
  -- a shorter chain would end on a lower level, since all nodes on its way are below the last level
  have hi := h.levelled.levelOf_lt (lt_size_of_token? ht)
  obtain ⟨j, u, hu, hut, hle⟩ := h.exists_node_of_chain (fun j hj => h.closed j (by omega)) hm
  rw [h.tree.distinct j i u t hu ht hut] at hle
  omega

/-- On a level are the identities at its distance, if the nodes below it are closed. -/
theorem Complete.exists_node_iff (h : g.Complete f) :
    (∃ (i : Nat) (t : Token), g.token? i = some t ∧ t.identity = x ∧ g.levelOf i = n) ↔
      f.Distance g.search n g.root.identity x := by
  constructor
  · rintro ⟨i, t, ht, rfl, rfl⟩
    exact h.distance ht
  · intro hx
    obtain ⟨i, t, ht, rfl, -⟩ := h.exists_node_of_chain (fun i _ => h.closed_all i) hx.1
    exact ⟨i, t, ht, rfl, (h.distance ht).unique hx⟩

/-- The nodes of a complete graph name what is reached from its root. -/
theorem Complete.exists_token_iff (h : g.Complete f) :
    (∃ (i : Nat) (t : Token), g.token? i = some t ∧ t.identity = x) ↔ f.Reaches g.search g.root.identity x := by
  constructor
  · rintro ⟨i, t, ht, rfl⟩
    exact ⟨_, h.chain ht⟩
  · rintro ⟨n, hn⟩
    obtain ⟨i, t, ht, htx, -⟩ := h.exists_node_of_chain (fun i _ => h.closed_all i) hn
    exact ⟨i, t, ht, htx⟩

/-- A complete graph contains what is reached from its root. -/
theorem Complete.contains_iff (h : g.Complete f) :
    g.contains t = true ↔ f.Reaches g.search g.root.identity t.identity := by
  rw [h.tree.contains_iff]
  exact h.exists_token_iff

/-- The levels of a complete graph together name what is reached from its root. -/
theorem Complete.mem_names_iff (h : g.Complete f) :
    x ∈ g.levels.toList.flatMap g.names ↔ f.Reaches g.search g.root.identity x := by
  rw [h.levelled.names_eq, LevelGraph.mem_names_iff, ← h.exists_token_iff]
  constructor
  · rintro ⟨i, -, t, ht, htx⟩
    exact ⟨i, t, ht, htx⟩
  · rintro ⟨i, t, ht, htx⟩
    exact ⟨i, List.mem_range.2 (lt_size_of_token? ht), t, ht, htx⟩

/-- A level of a complete graph names what is at its distance. -/
theorem Complete.mem_level_iff (h : g.Complete f) :
    (∃ ids, g.level? k = some ids ∧ x ∈ g.names ids) ↔ f.Distance g.search k g.root.identity x := by
  rw [← h.exists_node_iff]
  constructor
  · rintro ⟨ids, hk, hx⟩
    obtain ⟨i, hi, t, ht, htx⟩ := LevelGraph.mem_names_iff.1 hx
    exact ⟨i, t, ht, htx, h.levelled.onLevel k ids hk i hi⟩
  · rintro ⟨i, t, ht, htx, rfl⟩
    obtain ⟨k, ids, hk, hi⟩ := h.levelled.lt_size_iff.1 (lt_size_of_token? ht)
    rw [h.levelled.onLevel k ids hk i hi]
    exact ⟨ids, hk, LevelGraph.mem_names_iff.2 ⟨i, hi, t, ht, htx⟩⟩

/-! ## Building -/

section Build

variable {σ : Type} [Sources σ] {c c' : Context σ}

/-- What is built in a faithful context is complete. -/
theorem complete_of_build {total : Prop} (hc : c.Faithful f total) {scope : Scope}
    (h : build scope search root false c = (.ok g, c')) :
    g.Complete f ∧ g.levelCount ≤ maxLevel + 1 ∧ g.search = search ∧ g.root = root :=
  ((build_spec scope search root).of_ok hc h).1

/-- Where everything is within reach of the deepest level, a graph is built. -/
theorem exists_build (hc : c.Stable f) (scope : Scope)
    (hd : ∀ n x, f.Distance search n root.identity x → n ≤ maxLevel) :
    ∃ g c', build scope search root false c = (.ok g, c') := by
  have hs := build_spec scope search root c hc
  rcases hr : build scope search root false c with ⟨e | g, c'⟩
  · rw [hr] at hs
    obtain ⟨-, g, hg, rfl, rfl, hcount⟩ := hs.2 trivial
    -- a graph with a level too many has a node that is too far away
    obtain ⟨i, hi, hl⟩ := hg.levelled.exists_node hcount
    obtain ⟨t, ht⟩ := exists_token?_iff.2 hi
    have := hd _ _ (hg.distance ht)
    omega
  · exact ⟨g, c', rfl⟩

/-- Nothing in a graph that was built is further away than its deepest level. -/
theorem distance_le_of_build {total : Prop} (hc : c.Faithful f total) {scope : Scope}
    (h : build scope search root false c = (.ok g, c')) (hx : f.Distance search n root.identity x) : n ≤ maxLevel := by
  obtain ⟨hg, hcount, rfl, rfl⟩ := complete_of_build hc h
  obtain ⟨i, t, ht, -, rfl⟩ := hg.exists_node_iff.2 hx
  have := hg.levelled.levelOf_lt (lt_size_of_token? ht)
  omega

/-- Where something is further away than the deepest level, the building of a graph fails for that reason. -/
theorem build_eq_tooDeep (hc : c.Stable f) (scope : Scope) (hx : f.Distance search n root.identity x) (hn : maxLevel < n) :
    ∃ c', build scope search root false c = (.error (.tooDeep root.display maxLevel), c') := by
  have hs := build_spec scope search root c hc
  rcases hr : build scope search root false c with ⟨e | g, c'⟩
  · rw [hr] at hs
    rw [(hs.2 trivial).1]
    exact ⟨c', rfl⟩
  · exact absurd (distance_le_of_build hc hr hx) (Nat.not_le.2 hn)

/-- In a context of stable sources that never fail, a graph that is built has exactly what is reached from its root, every identity
once and on the level of its distance. The building ends so if and only if nothing is further away than the deepest level, and it
fails for that reason otherwise. -/
theorem build_iff_distance (hc : c.Stable f) (scope : Scope) (search : Search) (root : Token) :
    (∀ g c', build scope search root false c = (.ok g, c') →
      (∀ t, g.contains t = true ↔ f.Reaches search root.identity t.identity) ∧
      (∀ t i, g.find? t = some i → f.Distance search (g.levelOf i) root.identity t.identity) ∧
      (∀ k x, (∃ ids, g.level? k = some ids ∧ x ∈ g.names ids) ↔ f.Distance search k root.identity x) ∧
      (∀ x, x ∈ g.levels.toList.flatMap g.names ↔ f.Reaches search root.identity x) ∧
      (g.levels.toList.flatMap g.names).Nodup) ∧
    ((∃ g c', build scope search root false c = (.ok g, c')) ↔
      ∀ n x, f.Distance search n root.identity x → n ≤ maxLevel) ∧
    ((¬∃ g c', build scope search root false c = (.ok g, c')) →
      ∃ c', build scope search root false c = (.error (.tooDeep root.display maxLevel), c')) := by
  have hiff : (∃ g c', build scope search root false c = (.ok g, c')) ↔
      ∀ n x, f.Distance search n root.identity x → n ≤ maxLevel := by
    constructor
    · rintro ⟨g, c', h⟩ n x hx
      exact distance_le_of_build hc h hx
    · exact exists_build hc scope
  refine ⟨fun g c' h => ?_, hiff, fun hno => ?_⟩
  · obtain ⟨hg, -, rfl, rfl⟩ := complete_of_build hc h
    refine ⟨fun t => hg.contains_iff, fun t i hi => ?_, fun k x => hg.mem_level_iff, fun x => hg.mem_names_iff, ?_⟩
    · obtain ⟨u, hu, hut⟩ := hg.tree.find?_eq_some_iff.1 hi
      rw [← hut]
      exact hg.distance hu
    · rw [hg.levelled.names_eq]
      exact hg.tree.nodup_names List.nodup_range
  · rw [hiff] at hno
    obtain ⟨n, hno⟩ := Classical.not_forall.1 hno
    obtain ⟨x, hno⟩ := Classical.not_forall.1 hno
    obtain ⟨hx, hn⟩ := Classical.not_imp.1 hno
    exact build_eq_tooDeep hc scope hx (Nat.lt_of_not_le hn)

/-- Two pages that are each other's parents, one by the listing and one by a hook: the graph of either has both and nothing else. -/
theorem build_iff_distance_loop :
    let a := Token.element "page" "site" "1"
    let b := Token.element "page" "site" "2"
    let l := Listing.empty.add a b
    let h := Hooks.empty.add b a
    let c := Context.new (Catalog.ofTables l h) {}
    c.Stable (Ancestry.ofTables l h) ∧ ∃ g c', build (some "user") .both a false c = (.ok g, c') ∧
      ∀ x, (Ancestry.ofTables l h).Reaches .both a.identity x ↔ x = a.identity ∨ x = b.identity := by
  intro a b l h c
  have hc : c.Stable (Ancestry.ofTables l h) := Catalog.stable_ofTables l h {}
  have hnames : ((build (some "user") .both a false c).1.toOption.map fun g => g.levels.toList.flatMap g.names) =
      some [a.identity, b.identity] := by decide +kernel
  refine ⟨hc, ?_⟩
  obtain ⟨g, c', hb, hg⟩ := Act.exists_of_map_eq_some hnames
  refine ⟨g, c', hb, fun x => ?_⟩
  rw [← ((build_iff_distance hc (some "user") .both a).1 g c' hb).2.2.2.1 x, hg]
  simp only [List.mem_cons, List.not_mem_nil, or_false]

end Build
end Lineage.LevelGraph
