import Lineage.Cache

/-!
# Level graphs

The ancestors of a token, level by level: the root is on level 0, and level n + 1 holds the parents of the nodes of level n that are
not in the graph yet. A node remembers the one child that found it and the parents it found, so following children from any node
leads down to the root. Nodes are numbered in the order in which they are found.
-/

namespace Lineage

/-- Which parents a graph follows. -/
inductive Search where
  | native | hooked | both
  deriving DecidableEq, Repr

namespace Search

/-- Whether native parents are followed. -/
def includesNative : Search → Bool
  | .native | .both => true
  | .hooked => false

/-- Whether auxiliary and hooking parents are followed. -/
def includesHooked : Search → Bool
  | .hooked | .both => true
  | .native => false

/-- The questions that are asked about each node, in order. -/
def branches (s : Search) : List Branch :=
  (if s.includesNative then [.native] else []) ++ (if s.includesHooked then [.hooked] else [])

/-- The name of a search. -/
def name : Search → String
  | .native => "native"
  | .hooked => "hooked"
  | .both => "both"

/-- All searches. -/
def all : List Search := [.native, .hooked, .both]

/-- The search with a name. -/
def ofName? (s : String) : Option Search := all.find? (·.name = s)

/-- The search for diagnosis. -/
def debug : Search → String
  | .native => "Native"
  | .hooked => "Hooked"
  | .both => "Both"

end Search

/-- The number of a node in its graph. -/
abbrev NodeId := Nat

namespace LevelGraph

/-- A node. The root counts as native. -/
structure Node where
  token : Token
  level : Nat
  /-- the question whose answer named the token first -/
  branch : Branch
  /-- the nodes found through this one, in order -/
  parents : List NodeId
  /-- the node through which this one was found -/
  child : Option NodeId
  deriving DecidableEq, Repr

/-- The highest level that may still be expanded. -/
def maxLevel : Nat := 1000

end LevelGraph

/-- A graph, complete or not. -/
structure LevelGraph where
  /-- whose cached answers it uses, settled when the graph is begun -/
  scope : Scope
  search : Search
  root : Token
  nodes : Array LevelGraph.Node
  /-- the node of everything that is in the graph; it also says what has been found already -/
  index : Table Identity NodeId
  levels : Array (List NodeId)
  /-- whether the last expansion found a level -/
  more : Bool
  deriving DecidableEq, Repr

namespace LevelGraph

/-- The graph of a root alone. -/
def start (scope : Scope) (search : Search) (root : Token) : LevelGraph :=
  { scope, search, root, nodes := #[⟨root, 0, .native, [], none⟩], index := Table.empty.set root.identity 0
    levels := #[[0]], more := false }

/-- The number of nodes. -/
def size (g : LevelGraph) : Nat := g.nodes.size

/-- The number of levels found so far. -/
def levelCount (g : LevelGraph) : Nat := g.levels.size

/-- The node with a number. -/
def node? (g : LevelGraph) (i : NodeId) : Option Node := g.nodes[i]?

/-- The node with a number that may be of another graph. -/
def node (g : LevelGraph) (i : NodeId) : Except Error Node :=
  match g.node? i with
  | some n => .ok n
  | none => .error (.unknownNode i)

/-- The number of the node that names the same object as a token. -/
def find? (g : LevelGraph) (t : Token) : Option NodeId := g.index.find? t.identity

/-- Whether a token is in the graph. -/
def contains (g : LevelGraph) (t : Token) : Bool := (g.find? t).isSome

/-- The token of a node. -/
def token? (g : LevelGraph) (i : NodeId) : Option Token := (g.node? i).map (·.token)

/-- The child of a node; only the root has none. -/
def child? (g : LevelGraph) (i : NodeId) : Option NodeId := (g.node? i).bind (·.child)

/-- The parents that a node found. -/
def parents (g : LevelGraph) (i : NodeId) : List NodeId := ((g.node? i).map (·.parents)).getD []

/-- The level of a node. -/
def levelOf (g : LevelGraph) (i : NodeId) : Nat := ((g.node? i).map (·.level)).getD 0

/-- The numbers of all nodes. -/
def ids (g : LevelGraph) : List NodeId := List.range g.size

/-- The nodes without parents, in the order of their numbers. -/
def tops (g : LevelGraph) : List NodeId := g.ids.filter fun i => (g.parents i).isEmpty

/-- The nodes without a child, in the order of their numbers. -/
def bottoms (g : LevelGraph) : List NodeId := g.ids.filter fun i => (g.child? i).isNone

/-- The nodes of a level that has been found. -/
def level? (g : LevelGraph) (n : Nat) : Option (List NodeId) := g.levels[n]?

/-- The tokens of some nodes. -/
def tokens (g : LevelGraph) (is : List NodeId) : List Token := is.filterMap g.token?

/-- The tokens of those of some nodes that were found on a branch. -/
def tokensOn (g : LevelGraph) (b : Branch) (is : List NodeId) : List Token :=
  is.filterMap fun i => (g.node? i).bind fun n => if n.branch = b then some n.token else none

/-- The tokens on the way from a node down to the root, of a given number of steps at most. -/
def chainWithin (g : LevelGraph) : Nat → NodeId → List NodeId
  | 0, i => [i]
  | n + 1, i =>
    match g.child? i with
    | some c => i :: chainWithin g n c
    | none => [i]

/-- The nodes on the way from a node down to the root. No way is longer than the graph has nodes. -/
def chain (g : LevelGraph) (i : NodeId) : List NodeId := g.chainWithin g.size i

/-! ## Texts -/

/-- A token as the dump of a graph shows it. -/
def line (label : String) (t : Token) : String :=
  label ++ ": Type = " ++ t.identity.type ++ " Source = " ++ t.identity.source ++ " Id = " ++ t.identity.id ++ "\n"

/-- A level as the dump of a graph shows it: the native tokens before the others. -/
def levelText (g : LevelGraph) (n : Nat) (is : List NodeId) : String :=
  "Level: " ++ toString n ++ "\n" ++
    String.join ((g.tokensOn .native is).map (line "Native")) ++
    String.join ((g.tokensOn .hooked is).map (line "Hooked")) ++ "---------\n"

/-- The dump of a graph. -/
def display (g : LevelGraph) : String :=
  String.join ((g.levels.toList.zipIdx).map fun (is, n) => g.levelText n is)

/-- The graph for diagnosis. -/
def debug (g : LevelGraph) : String :=
  Text.record "RelationshipGraph" [("root", g.root.debug), ("search", g.search.debug),
    ("levels", toString g.levelCount), ("nodes", toString g.size), ("more_levels", Text.ofBool g.more)]

/-- The node of a token for diagnosis. -/
def debugNode (g : LevelGraph) (t : Token) : String :=
  match (g.find? t).bind fun i => (g.node? i).map (i, ·) with
  | none => "None"
  | some (i, n) =>
    Text.applied "Some" (Text.record "NodeRef" [("id", Text.applied "NodeId" (toString i)),
      ("level", toString n.level), ("token", n.token.debug)])

end LevelGraph
end Lineage
