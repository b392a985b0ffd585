import Lineage.Context
import Lineage.Graph.Basic

/-!
# The difference of two graphs

Given the graph of a place before and after a change, which tokens have to be shown anew? From every top node that both graphs have,
the two ways down are compared. The first node of one way where the other goes elsewhere or ends is a place where the change
happened, directly below that node's parents. Places that lie below another place are dropped, and the parents of the others are the
answer.
-/

namespace Lineage

/-- A node of one of the graphs that are compared. -/
structure Place where
  graph : LevelGraph
  id : NodeId

namespace Place

/-- The token at a place. -/
def token? (p : Place) : Option Token := p.graph.token? p.id

/-- Whether two places name the same object. -/
def same (p q : Place) : Bool :=
  match p.token?, q.token? with
  | some a, some b => a.same b
  | _, _ => false

/-- The nodes above a node, each after the one through which it was found, for ways of a given length at most. -/
def aboveWithin (g : LevelGraph) : Nat → NodeId → List NodeId
  | 0, _ => []
  | n + 1, i => (g.parents i).flatMap fun p => p :: aboveWithin g n p

/-- The nodes above a place. No way up is longer than the graph has nodes. -/
def above (p : Place) : List NodeId := aboveWithin p.graph p.graph.size p.id

/-- Whether another place is covered by this one: whether the token of this place is above the other. -/
def covers (p q : Place) : Bool := q.above.any fun i => p.same ⟨q.graph, i⟩

/-- The tokens that the node at a place found as its parents. -/
def parentTokens (p : Place) : List Token := p.graph.tokens (p.graph.parents p.id)

end Place

namespace Difference

/-- The first node of a way down after the part it shares with another way down. -/
def partedFrom (left right : LevelGraph) : List NodeId → List NodeId → Option NodeId
  | [], _ => none
  | i :: _, [] => some i
  | i :: is, j :: js => if Place.same ⟨left, i⟩ ⟨right, j⟩ then partedFrom left right is js else some i

/-- The place below a top node where its way down leaves that of the other graph, if the other graph has that top node. -/
def partedAt (left right : LevelGraph) (top : NodeId) : Option Place :=
  match right.tops.find? fun i => Place.same ⟨left, top⟩ ⟨right, i⟩ with
  | none => none
  | some other => (partedFrom left right (left.chain top) (right.chain other)).map fun i => ⟨left, i⟩

/-- Adds a place, unless there is one for the same object. -/
def addPlace (found : List Place) (p : Place) : List Place := if found.any (·.same p) then found else found ++ [p]

/-- Adds the places where one graph leaves the other, in the order of its top nodes. -/
def addPlaces (left right : LevelGraph) (found : List Place) : List Place :=
  (left.tops.filterMap (partedAt left right)).foldl addPlace found

/-- The places where either graph leaves the other, one for each object. -/
def places (before after : LevelGraph) : List Place := addPlaces after before (addPlaces before after [])

/-- The places that no other place covers. -/
def uncovered (ps : List Place) : List Place := ps.filter fun p => !ps.any fun q => !q.same p && q.covers p

/-- The places that count. -/
def candidates (before after : LevelGraph) : List Place := uncovered (places before after)

/-- The tokens to show anew, each once. -/
def tokens (before after : LevelGraph) : List Token :=
  Token.distinct ((candidates before after).flatMap Place.parentTokens)

/-- The part of the program that logs for differences. -/
def target : String := "tokengraph_core::refresh::finder"

/-- The name of the operation. -/
def op : String := "find_entity_tokens"

/-- The tokens to show anew, with the log of having looked for them. -/
def find {σ : Type} (before after : LevelGraph) : Run (Context σ) (List Token) :=
  let root := (Log.rootField, Log.Value.text before.root.display)
  Context.loggedBy Context.emit target op [root]
    (fun _ => [root, ("candidate_count", .number (candidates before after).length)]) []
    (pure (tokens before after))

end Difference
end Lineage
