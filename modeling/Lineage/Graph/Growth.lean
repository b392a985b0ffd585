import Lineage.Context
import Lineage.Graph.Basic

/-!
# How a level graph grows

To expand a graph is to ask, for each node of its last level in turn, the questions of its search, and to attach the parents that are
new. The nodes attached in this way are the next level, if there are any. Whatever fails on the way, what was attached before stays
attached: it is then in no level.
-/

namespace Lineage

namespace LevelGraph

/-- Attaches a parent to a node, unless the graph has it already. -/
def attach (g : LevelGraph) (child : NodeId) (b : Branch) (parent : Token) : LevelGraph :=
  if g.contains parent then g
  else
    { g with
      nodes := (g.nodes.push ⟨parent, g.levelOf child + 1, b, [], some child⟩).modify child
        fun n => { n with parents := n.parents ++ [g.size] }
      index := g.index.set parent.identity g.size }

/-- Attaches parents to a node in order. -/
def attachAll (g : LevelGraph) (child : NodeId) (b : Branch) (parents : List Token) : LevelGraph :=
  parents.foldl (fun g p => g.attach child b p) g

/-- The nodes of the last level. -/
def frontier (g : LevelGraph) : List NodeId := g.levels.back?.getD []

/-- The questions of an expansion, in order. -/
def questions (g : LevelGraph) : List (NodeId × Branch) :=
  g.frontier.flatMap fun i => g.search.branches.map fun b => (i, b)

/-- Makes the nodes from a number on the next level, if there are any. -/
def closeLevel (g : LevelGraph) (first : NodeId) : LevelGraph :=
  if first < g.size then
    { g with levels := g.levels.push (List.range' first (g.size - first)), more := true }
  else g

end LevelGraph

/-- A graph that grows, with the context it asks. -/
structure Growing (σ : Type) where
  graph : LevelGraph
  context : Context σ

namespace Growing

variable {σ : Type}

/-- Changes the graph. -/
def change (f : LevelGraph → LevelGraph) : Run (Growing σ) Unit := .modify fun s => { s with graph := f s.graph }

/-- Does something with the context. -/
def inContext {α : Type} (r : Run (Context σ) α) : Run (Growing σ) α :=
  .on (·.context) (fun context s => { s with context }) r

variable [Sources σ]

/-- Asks questions about nodes one after the other, and attaches the parents that are named. -/
def answer : List (NodeId × Branch) → Run (Growing σ) Unit
  | [] => pure ()
  | (i, b) :: rest => do
    match (← Act.get).graph.token? i with
    | none => answer rest
    | some t =>
      let parents ← inContext (Context.parents (← Act.get).graph.scope b t)
      change fun g => g.attachAll i b (parents.getD [])
      answer rest

/-- Looks for one more level. Below the deepest level that may be expanded this fails, and nothing changes. -/
def expand : Run (Growing σ) Unit := do
  let g := (← Act.get).graph
  if LevelGraph.maxLevel < g.levelCount - 1 then
    Act.fail (.tooDeep g.root.display LevelGraph.maxLevel)
  else
    change fun g => { g with more := false }
    answer g.questions
    change fun g' => g'.closeLevel g.size

/-- Looks for more levels while there are any, a given number of times at most. -/
def expandTimes : Nat → Run (Growing σ) Unit
  | 0 => pure ()
  | n + 1 => do
    if (← Act.get).graph.more then
      expand
      expandTimes n
    else pure ()

/-- Looks for levels until there are no more. The last level is always asked about once. -/
def expandAll : Run (Growing σ) Unit := do
  expand
  expandTimes (LevelGraph.maxLevel + 2)

/-- The nodes of a level, which is looked for as far as needed. -/
def level? (n : Nat) : Run (Growing σ) (Option (List NodeId)) := do
  expandTimes (n + 1 - (← Act.get).graph.levelCount)
  pure ((← Act.get).graph.level? n)

end Growing

namespace LevelGraph

variable {σ : Type} [Sources σ]

/-- The part of the program that logs for level graphs. -/
def target : String := "tokengraph_core::graph::relationship"

/-- The name of the operation that builds a graph. -/
def buildOp : String := "build_graph"

/-- Expands a graph that was just begun: by one level, or completely. -/
def grow (g : LevelGraph) (onlyOne : Bool) : Run (Context σ) LevelGraph := fun c =>
  match (if onlyOne then Growing.expand else Growing.expandAll) (⟨g, c⟩ : Growing σ) with
  | (.ok (), s) => (.ok s.graph, s.context)
  | (.error e, s) => (.error e, s.context)

/-- Builds the graph of a root: completely, or only its first level. -/
def build (scope : Scope) (search : Search) (root : Token) (onlyOne : Bool) : Run (Context σ) LevelGraph :=
  Context.loggedBy Context.emit target buildOp
    [(Log.rootField, .text root.display), ("search", .text search.debug), ("lazy", .flag onlyOne)]
    (fun g => [("level_count", .number g.levelCount), ("node_count", .number g.size)]) []
    (grow (start scope search root) onlyOne)

end LevelGraph
end Lineage
