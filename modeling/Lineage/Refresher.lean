import Lineage.Graph.Difference
import Lineage.Graph.Growth

/-!
# Refreshing after a child was added

A refresher takes the graph of the parent before a child is added, and once the child is there it compares that graph with the one of
the child and asks the console to show anew what the difference names. It can be used once.
-/

namespace Lineage

/-- A refresher. -/
structure Refresher where
  before : LevelGraph
  requestId : String
  /-- what the console was asked to show anew, if there is a console -/
  console : Option (List Token)
  posted : Bool

namespace Refresher

/-- The part of the program that logs for refreshers. -/
def target : String := "tokengraph_core::refresh::add_new"

/-- The name of the operation. -/
def op : String := "post_refresh_messages"

/-- What the console was asked to show anew so far. -/
def sent (r : Refresher) : List Token := r.console.getD []

/-- The field of a request id. -/
def requestField (id : String) : String × Log.Value := (Log.requestField, .text id)

/-- The event that the graph of a parent is taken. -/
def capturingEvent (requestId : String) (parent : Token) : Log.Event :=
  { level := .debug, target
    fields := [(Log.componentField, .text target), requestField requestId, ("parent", .text parent.display),
      (Log.messageField, .text "capturing before graph")] }

/-- The event that the console is asked to show a token anew. -/
def sendingEvent (requestId : String) (t : Token) : Log.Event :=
  { level := .debug, target
    fields := [(Log.componentField, .text target), requestField requestId, ("token", .text t.display),
      ("kind", .text t.kind.tag), (Log.messageField, .text "refreshing tree section")] }

/-- The event that there is no console. -/
def missingEvent (requestId : String) (skipped : Nat) : Log.Event :=
  { level := .warn, target, op := some op, event := some Log.missingEvent
    fields := [(Log.componentField, .text target), requestField requestId, ("skipped", .number skipped),
      (Log.messageField, .text "no console message service; tree refresh skipped")] }

/-- The refresher for diagnosis. -/
def debug (r : Refresher) : String :=
  Text.record "AddNewTreeRefresher" [("parent", r.before.root.debug), ("posted", Text.ofBool r.posted),
    ("request_id", Text.applied "RequestId" (Text.quote r.requestId))]

/-- The services of a flow for diagnosis. -/
def debugServices (console : Bool) : String := Text.record "FlowServices" [("console_messages", Text.ofBool console)]

end Refresher

/-- A refresher at work, with the context it asks. -/
structure Refreshing (σ : Type) where
  refresher : Refresher
  context : Context σ

namespace Refreshing

variable {σ : Type}

/-- Does something with the context. -/
def inContext {α : Type} (r : Run (Context σ) α) : Run (Refreshing σ) α :=
  .on (·.context) (fun context s => { s with context }) r

/-- Logs an event. -/
def emit (e : Log.Event) : Run (Refreshing σ) Unit := inContext (Context.emit e)

/-- Changes the refresher. -/
def change (f : Refresher → Refresher) : Run (Refreshing σ) Unit :=
  .modify fun s => { s with refresher := f s.refresher }

/-- Asks the console to show tokens anew, one after the other. -/
def sendAll (requestId : String) : List Token → Run (Refreshing σ) Unit
  | [] => pure ()
  | t :: ts => do
    emit (Refresher.sendingEvent requestId t)
    change fun r => { r with console := some (r.sent ++ [t]) }
    sendAll requestId ts

/-- Sends tokens to the console, or logs that there is none. The number of tokens sent is returned. -/
def send (tokens : List Token) : Run (Refreshing σ) Nat := do
  let r := (← Act.get).refresher
  match r.console with
  | some _ =>
    sendAll r.requestId tokens
    pure tokens.length
  | none =>
    emit (Refresher.missingEvent r.requestId tokens.length)
    pure 0

variable [Sources σ]

/-- What a post does between its start and its end. The refresher is used up before the graph of the child is built. -/
def dispatch (scope : Scope) (child : Token) : Run (Refreshing σ) Nat := do
  if (← Act.get).refresher.posted then Act.fail .alreadyPosted
  change fun r => { r with posted := true }
  let after ← inContext (LevelGraph.build scope .both child false)
  let tokens ← inContext (Difference.find (← Act.get).refresher.before after)
  send tokens

/-- Compares the graph of a new child with the graph that was taken, and tells the console. The number of tokens sent is returned. -/
def post (scope : Scope) (child : Token) : Run (Refreshing σ) Nat := do
  let id := Refresher.requestField (← Act.get).refresher.requestId
  Context.loggedBy emit Refresher.target Refresher.op [id, ("token", .text child.display)]
    (fun n => [id, ("refresh_count", .number n)]) [id] (dispatch scope child)

end Refreshing

namespace Refresher

variable {σ : Type} [Sources σ]

/-- Takes the graph of a parent. -/
def new (scope : Scope) (requestId : String) (console : Bool) (parent : Token) : Run (Context σ) Refresher := do
  Context.emit (capturingEvent requestId parent)
  let before ← LevelGraph.build scope .both parent false
  pure { before, requestId, console := if console then some [] else none, posted := false }

end Refresher
end Lineage
