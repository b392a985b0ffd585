import Lineage.Context
import Lineage.Graph.Basic

/-!
# Path graphs

Where a token can be reached on several ways, a path graph keeps them all: a node has the parents that its sources name, each once,
wherever else they are linked. A node is expanded when its parents are asked for first, straight from the sources: native, then
auxiliary, then hooking. A node whose sources fail stays unexpanded and is asked again.
-/

namespace Lineage

/-- A node: its token, and its parents once they are known. -/
structure PathGraph.Node where
  token : Token
  parents : Option (List NodeId)
  deriving DecidableEq, Repr

/-- Nodes in the order in which they were named first. -/
structure PathGraph where
  root : Token
  nodes : Array PathGraph.Node
  deriving DecidableEq, Repr

namespace PathGraph

/-- The graph of a root alone. -/
def start (root : Token) : PathGraph := ⟨root, #[⟨root, none⟩]⟩

/-- The number of nodes, expanded or not. -/
def size (g : PathGraph) : Nat := g.nodes.size

/-- The number of the node that names the same object as a token. -/
def find? (g : PathGraph) (t : Token) : Option NodeId := g.nodes.findIdx? (·.token.same t)

/-- The node with a number that may be of another graph. -/
def node (g : PathGraph) (i : NodeId) : Except Error Node :=
  match g.nodes[i]? with
  | some n => .ok n
  | none => .error (.unknownNode i)

/-- The token of a node. -/
def token (g : PathGraph) (i : NodeId) : Except Error Token := (g.node i).map (·.token)

/-- Whether the parents of a node are known. -/
def isExpanded (g : PathGraph) (i : NodeId) : Bool := (g.nodes[i]?.bind (·.parents)).isSome

/-- The tokens of some nodes. -/
def tokens (g : PathGraph) (is : List NodeId) : List Token := is.filterMap fun i => (g.nodes[i]?).map (·.token)

/-- The node of a token, which is added if there is none. -/
def nodeFor (g : PathGraph) (t : Token) : NodeId × PathGraph :=
  match g.find? t with
  | some i => (i, g)
  | none => (g.size, { g with nodes := g.nodes.push ⟨t, none⟩ })

/-- The nodes of some tokens, added to those that were found before; no node is listed twice. -/
def link (g : PathGraph) (found : List NodeId) : List Token → List NodeId × PathGraph
  | [] => (found, g)
  | t :: ts =>
    match g.nodeFor t with
    | (i, g') => g'.link (if i ∈ found then found else found ++ [i]) ts

/-- Makes the parents of a node known. -/
def settle (g : PathGraph) (i : NodeId) (parents : List NodeId) : PathGraph :=
  { g with nodes := g.nodes.modify i fun n => { n with parents := some parents } }

/-- The order in which the sources are asked. -/
def askingOrder : List Category := [.native, .auxiliary, .hooking]

/-- The graph for diagnosis. -/
def debug (g : PathGraph) : String :=
  Text.record "RelationshipOrientedGraph" [("root", g.root.debug), ("nodes", toString g.size)]

/-- The part of the program that logs for path graphs. -/
def target : String := "tokengraph_core::graph::oriented"

/-- The name of the operation that lists paths. -/
def pathsOp : String := "all_paths"

/-- A length that no path has: it is far above the number of nodes that fit into a memory. -/
def pathLimit : Nat := 1 <<< 62

end PathGraph

/-- A path graph that is explored, with the context it asks. -/
structure Exploring (σ : Type) where
  graph : PathGraph
  context : Context σ

namespace Exploring

variable {σ : Type}

/-- Does something with the context. -/
def inContext {α : Type} (r : Run (Context σ) α) : Run (Exploring σ) α :=
  .on (·.context) (fun context s => { s with context }) r

/-- Adds the nodes of some tokens to those that were found before. -/
def link (found : List NodeId) (ts : List Token) : Run (Exploring σ) (List NodeId) := fun s =>
  match s.graph.link found ts with
  | (found', graph) => (.ok found', { s with graph })

/-- Lists what a function finds for each item, in order. Nothing is listed once it has nothing for one of them. -/
def gather {s α β : Type} (f : α → Run s (Option (List β))) : List α → Run s (Option (List β))
  | [] => pure (some [])
  | a :: as => do
    match ← f a with
    | none => pure none
    | some bs =>
      match ← gather f as with
      | none => pure none
      | some bs' => pure (some (bs ++ bs'))

variable [Sources σ]

/-- Asks categories one after the other about a token, and adds the nodes they name to those found before. -/
def askAll (t : Token) : List Category → List NodeId → Run (Exploring σ) (List NodeId)
  | [], found => pure found
  | c :: cs, found => do
    let answer ← inContext (Context.ask c t)
    let found' ← link found (answer.getD [])
    askAll t cs found'

/-- The parents of a node, which is expanded if it is not yet. -/
def parents (i : NodeId) : Run (Exploring σ) (List NodeId) := do
  let n ← Act.ofExcept ((← Act.get).graph.node i)
  match n.parents with
  | some ps => pure ps
  | none =>
    let ps ← askAll n.token PathGraph.askingOrder []
    Act.modify fun s => { s with graph := s.graph.settle i ps }
    pure ps

/-- The paths that continue a path by one node and end where no parent is new, the nodes before the last one given nearest first.
There is nothing if one of them would have more nodes than allowed. -/
def pathsWithin : Nat → List NodeId → NodeId → Run (Exploring σ) (Option (List (List NodeId)))
  | 0, _, _ => pure none
  | n + 1, before, last => do
    let ps ← parents last
    let next := ps.filter (· ∉ last :: before)
    if next.isEmpty then pure (some [[last]])
    else
      match ← gather (pathsWithin n (last :: before)) next with
      | none => pure none
      | some paths => pure (some (paths.map (last :: ·)))

/-- The paths from a node to where no parent is new, as tokens: those through its first parent before those through its second. There
is nothing if a path would have more nodes than the limit. -/
def allPaths (limit : Nat) (i : NodeId) : Run (Exploring σ) (Option (List (List Token))) := do
  let t ← Act.ofExcept ((← Act.get).graph.token i)
  let listed ← Context.loggedBy (fun e => inContext (Context.emit e)) PathGraph.target PathGraph.pathsOp
    [("token", .text t.display)]
    (fun (found : Option (List (List Token)) × Nat) =>
      [("path_count", .number (found.1.getD []).length), ("node_count", .number found.2)]) []
    (do
      let paths ← pathsWithin limit [] i
      let g := (← Act.get).graph
      pure (paths.map (·.map g.tokens), g.size))
  pure listed.1

end Exploring
end Lineage
