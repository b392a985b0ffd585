import Lineage.Proofs.Graph.Shortest
import Lineage.Proofs.Paths.Exploring

/-!
# The levels and the paths of a root agree

Two searches start at one root: the levels are found from the root outwards, each node once and through the cache, and the paths are
found depth first, each node as often as a path leads to it and straight from the sources. They agree nevertheless. Every shortest chain
is the beginning of a maximal path, so what is on the levels is what is on the paths, and a node is on the level of the first position
that it has on any path.
-/

namespace Lineage

namespace Ancestry

variable {f : Ancestry} {within : List Identity} {root x y : Identity}

/-- Where finitely many identities are reached, they are what is on the maximal paths. -/
theorem exists_mem_maximal_iff (hwithin : ∀ y ∈ within, ∀ z, f.Parent .both y z → z ∈ within) (hroot : root ∈ within) :
    (∃ path, f.Maximal [] root path ∧ y ∈ path) ↔ f.Reaches .both root y := by
  constructor
  · rintro ⟨path, hpath, hy⟩
    obtain ⟨k, hk⟩ := List.mem_iff_getElem?.1 hy
    exact ⟨k, hpath.chain hk⟩
  · intro hy
    obtain ⟨n, hn⟩ := hy.exists_distance
    obtain ⟨⟨path, hpath, hk⟩, -⟩ := exists_maximal_of_reaches hwithin hroot hn
    exact ⟨path, hpath, List.mem_of_getElem? hk⟩

end Ancestry

namespace PathGraph

/-- The identities that nodes name, in the order of the nodes. -/
def named (g : PathGraph) : List Identity := g.nodes.toList.map (·.token.identity)

variable {f : Ancestry} {g : PathGraph} {x : Identity}

theorem length_named (g : PathGraph) : g.named.length = g.size := by rw [named, List.length_map, Array.length_toList, size]

theorem getElem?_named_iff {i : NodeId} : g.named[i]? = some x ↔ g.Calls i x := by
  rw [named, List.getElem?_map, Array.getElem?_toList, Option.map_eq_some_iff]
  exact Iff.rfl

theorem mem_named_iff : x ∈ g.named ↔ ∃ i, g.Calls i x := by
  rw [List.mem_iff_getElem?]
  exact exists_congr fun i => getElem?_named_iff

/-- A sound graph names nothing twice. -/
theorem Sound.nodup_named (h : g.Sound f) : g.named.Nodup := by
  refine List.pairwise_iff_getElem.2 fun i j hi hj hij heq => Nat.ne_of_lt hij (h.distinct i j g.named[i] ?_ ?_)
  · exact getElem?_named_iff.1 (List.getElem?_eq_getElem hi)
  · rw [heq]
    exact getElem?_named_iff.1 (List.getElem?_eq_getElem hj)

/-- Where every identity on the maximal paths from the root has a node, the nodes name what is reached and nothing else. -/
theorem Sound.mem_named_iff_reaches (h : g.Sound f) {within : List Identity}
    (hwithin : ∀ y ∈ within, ∀ z, f.Parent .both y z → z ∈ within) (hroot : g.root.identity ∈ within)
    (hknown : ∀ path, f.Maximal [] g.root.identity path → ∀ y ∈ path, ∃ i, g.Knows i y) :
    x ∈ g.named ↔ f.Reaches .both g.root.identity x := by
  rw [mem_named_iff]
  constructor
  · rintro ⟨i, hi⟩
    exact h.reached i x hi
  · intro hx
    obtain ⟨path, hpath, hx⟩ := (Ancestry.exists_mem_maximal_iff hwithin hroot).2 hx
    obtain ⟨i, hi⟩ := hknown path hpath x hx
    exact ⟨i, hi.1⟩

end PathGraph

namespace LevelGraph

variable {f : Ancestry} {g : LevelGraph} {x : Identity}

/-- Every node names something. -/
theorem length_names_range (g : LevelGraph) : (g.names (List.range g.size)).length = g.size := by
  have hall : (g.tokens (List.range g.size)).length = (List.range g.size).length :=
    List.filterMap_length_eq_length.2 fun i hi => Option.isSome_iff_exists.2 (exists_token?_iff.2 (List.mem_range.1 hi))
  rw [names, List.length_map, hall, List.length_range]

/-- The nodes of a complete graph name what is reached from its root. -/
theorem Complete.mem_names_range_iff (h : g.Complete f) :
    x ∈ g.names (List.range g.size) ↔ f.Reaches g.search g.root.identity x := by
  rw [← h.levelled.names_eq]
  exact h.mem_names_iff

end LevelGraph

namespace Exploring

variable {σ τ : Type} [Sources σ] [Sources τ] {f : Ancestry} {s : Exploring τ} {i : NodeId} {x : Identity} {within : List Identity}
  {limit : Nat}

section Named

variable {paths : List (List Token)} {P : List Identity → Prop} (h : ∀ path, path ∈ paths.map (·.map Token.identity) ↔ P path)

include h

/-- Which tokens are on paths, where it is known what identities the paths name. -/
theorem exists_on_iff : (∃ path ∈ paths, ∃ u ∈ path, u.identity = x) ↔ ∃ path, P path ∧ x ∈ path := by
  constructor
  · rintro ⟨path, hpath, u, hu, rfl⟩
    exact ⟨_, (h _).1 (List.mem_map_of_mem hpath), List.mem_map_of_mem hu⟩
  · rintro ⟨path, hpath, hx⟩
    obtain ⟨path, hmem, rfl⟩ := List.mem_map.1 ((h path).2 hpath)
    exact ⟨path, hmem, List.mem_map.1 hx⟩

/-- Where they stand on them. -/
theorem exists_at_iff {k : Nat} :
    (∃ path ∈ paths, ∃ u, path[k]? = some u ∧ u.identity = x) ↔ ∃ path, P path ∧ path[k]? = some x := by
  constructor
  · rintro ⟨path, hpath, u, hk, rfl⟩
    exact ⟨_, (h _).1 (List.mem_map_of_mem hpath), by rw [List.getElem?_map, hk]; rfl⟩
  · rintro ⟨path, hpath, hk⟩
    obtain ⟨path, hmem, rfl⟩ := List.mem_map.1 ((h path).2 hpath)
    rw [List.getElem?_map, Option.map_eq_some_iff] at hk
    exact ⟨path, hmem, hk⟩

end Named

/-- From a node above which there are finitely many identities, all paths are listed if the limit is as high as their number: they are
the maximal paths from what the node names, and every node on them is expanded. -/
theorem allPaths_of_within (hs : Sound f True s) (hi : s.graph.Calls i x)
    (hwithin : ∀ y ∈ within, ∀ z, f.Parent .both y z → z ∈ within) (hx : x ∈ within) (hlimit : within.length ≤ limit) :
    ∃ paths s', allPaths limit i s = (.ok (some paths), s') ∧ Sound f True s' ∧ s'.graph.root = s.graph.root ∧
      (∀ path, path ∈ paths.map (·.map Token.identity) ↔ f.Maximal [] x path) ∧
      ∀ path, f.Maximal [] x path → ∀ y ∈ path, ∃ j, s'.graph.Knows j y := by
  have hroot : PathGraph.Lasting fun g => g.root = s.graph.root := fun _ _ hext h => hext.root.trans h
  obtain ⟨list, hlist⟩ := Ancestry.exists_pathsFrom hwithin hx (n := limit) List.not_mem_nil (by simpa using hlimit)
  rcases (allPaths_spec limit i x _ hroot).outcome ⟨hs, rfl, hi⟩ with ⟨r, s', hr, hs', hroot', hspells⟩ | ⟨e, s', -, -, -, hno⟩
  · have hmap := hspells.identities
    rw [hlist] at hmap
    obtain ⟨paths, rfl, hpaths⟩ := Option.map_eq_some_iff.1 hmap
    refine ⟨paths, s', hr, hs', hroot', fun path => ?_, fun path hpath => ?_⟩
    · rw [hpaths]
      exact Ancestry.mem_pathsFrom_iff hlist
    · exact hspells.expanded list hlist path ((Ancestry.mem_pathsFrom_iff hlist).2 hpath)
  · exact absurd trivial hno

/-- The two searches agree. Where the complete graph of a root is built, all paths from the root are listed, whatever the contexts of
both have cached and logged, if no path is cut off that has as many nodes as the graph. The tokens on the paths are those of the graph;
both graphs have the same number of nodes; and a token is on the level of the first position that it has on any path. -/
theorem allPaths_agrees {c c' : Context σ} {d : Context τ} {scope : Scope} {root : Token} {g : LevelGraph} (hc : c.Stable f)
    (hd : d.Stable f) (hbuild : LevelGraph.build scope .both root false c = (.ok g, c')) (hlimit : g.size ≤ limit) :
    ∃ paths s', allPaths limit 0 ⟨PathGraph.start root, d⟩ = (.ok (some paths), s') ∧
      (∀ t, (∃ path ∈ paths, ∃ u ∈ path, u.same t = true) ↔ g.contains t = true) ∧
      s'.graph.size = g.size ∧
      ∀ t i, g.find? t = some i →
        (∃ path ∈ paths, ∃ u, path[g.levelOf i]? = some u ∧ u.same t = true) ∧
        ∀ path ∈ paths, ∀ k u, path[k]? = some u → u.same t = true → g.levelOf i ≤ k := by
  obtain ⟨hg, -, hsearch, rfl⟩ := LevelGraph.complete_of_build hc hbuild
  -- the identities within which everything happens
  have hreach : ∀ x, x ∈ g.names (List.range g.size) ↔ f.Reaches .both g.root.identity x := fun x => by
    rw [hg.mem_names_range_iff, hsearch]
  have hwithin : ∀ y ∈ g.names (List.range g.size), ∀ z, f.Parent .both y z → z ∈ g.names (List.range g.size) :=
    fun y hy z hyz => (hreach z).2 (((hreach y).1 hy).trans hyz.above.reaches)
  have hroot : g.root.identity ∈ g.names (List.range g.size) := (hreach _).2 (Ancestry.Reaches.refl _)
  obtain ⟨paths, s', hr, hs', hroot', hpaths, hknown⟩ :=
    allPaths_of_within (s := ⟨PathGraph.start g.root, d⟩) ⟨PathGraph.sound_start f g.root, hd⟩ (PathGraph.calls_start_iff.2 ⟨rfl, rfl⟩)
      hwithin hroot (Nat.le_trans (Nat.le_of_eq g.length_names_range) hlimit)
  refine ⟨paths, s', hr, fun t => ?_, ?_, fun t i hi => ?_⟩
  · simp only [Token.same_iff]
    rw [exists_on_iff hpaths, Ancestry.exists_mem_maximal_iff hwithin hroot, hg.contains_iff, hsearch]
  · have hperm : s'.graph.named.Perm (g.names (List.range g.size)) :=
      (List.perm_ext_iff_of_nodup hs'.graph.nodup_named (hg.tree.nodup_names List.nodup_range)).2 fun x => by
        rw [hs'.graph.mem_named_iff_reaches hwithin (hroot' ▸ hroot) (hroot' ▸ hknown), hroot', hreach]
        rfl
    rw [← s'.graph.length_named, hperm.length_eq, g.length_names_range]
  · obtain ⟨u, hu, hut⟩ := hg.tree.find?_eq_some_iff.1 hi
    have hdist := hg.distance hu
    rw [hsearch, hut] at hdist
    obtain ⟨hfirst, hleast⟩ := Ancestry.exists_maximal_of_reaches hwithin hroot hdist
    simp only [Token.same_iff]
    refine ⟨(exists_at_iff hpaths).2 hfirst, fun path hpath k u hk hu => ?_⟩
    obtain ⟨path, hmax, hk⟩ := (exists_at_iff hpaths).1 ⟨path, hpath, u, hk, hu⟩
    exact hleast path k hmax hk

/-- A page with two ways to the third page, one of them shorter, which leads back to the first: the third page is on level 1, and it is
second on one path and nowhere first. -/
theorem allPaths_agrees_shortcut :
    let a := Token.element "page" "site" "1"
    let b := Token.element "page" "site" "2"
    let z := Token.element "page" "site" "3"
    let l := (Listing.empty.add a b).add b z
    let h := (Hooks.empty.add a z).add z a
    let c := Context.new (Catalog.ofTables l h) {}
    c.Stable (Ancestry.ofTables l h) ∧ ∃ g c', LevelGraph.build (some "user") .both a false c = (.ok g, c') ∧ g.size = 3 ∧
      ∃ paths s, allPaths PathGraph.pathLimit 0 ⟨PathGraph.start a, c⟩ = (.ok (some paths), s) ∧ s.graph.size = 3 ∧
        (∃ path ∈ paths, ∃ u, path[1]? = some u ∧ u.same z = true) ∧
        ∀ path ∈ paths, ∀ k u, path[k]? = some u → u.same z = true → 1 ≤ k := by
  intro a b z l h c
  have hc : c.Stable (Ancestry.ofTables l h) := Catalog.stable_ofTables l h {}
  have hlevels : ((LevelGraph.build (some "user") .both a false c).1.toOption.map fun g =>
      (g.size, (g.find? z).map g.levelOf)) = some (3, some 1) := by decide +kernel
  obtain ⟨g, c', hbuild, hg⟩ := Act.exists_of_map_eq_some hlevels
  obtain ⟨hsize, hz⟩ := Prod.mk.inj hg
  obtain ⟨i, hi, hlevel⟩ := Option.map_eq_some_iff.1 hz
  have hlimit : g.size ≤ PathGraph.pathLimit := by
    rw [hsize]
    decide
  obtain ⟨paths, s, hr, -, hs, hfirst⟩ := allPaths_agrees hc hc hbuild hlimit
  obtain ⟨hat, hleast⟩ := hfirst z i hi
  rw [hlevel] at hat hleast
  exact ⟨hc, g, c', hbuild, hsize, paths, s, hr, hs.trans hsize, hat, hleast⟩

end Exploring
end Lineage
