import Lineage.Error

/-!
# Logged events

An operation logs that it starts, and then exactly once that it ended or that it ended with an error. Two further events say that a
cached category overflowed and that nobody was there to be told of a refresh. An event is data: who reads the log decides how it is
written.
-/

namespace Lineage.Log

/-- How loud an event is. -/
inductive Level where
  | trace | debug | info | warn | error
  deriving DecidableEq, Repr

namespace Level

/-- The name of a level. -/
def name : Level → String
  | .trace => "TRACE"
  | .debug => "DEBUG"
  | .info => "INFO"
  | .warn => "WARN"
  | .error => "ERROR"

/-- Levels as numbers: the louder the greater. -/
def rank : Level → Nat
  | .trace => 1
  | .debug => 2
  | .info => 3
  | .warn => 4
  | .error => 5

end Level

/-- The value of a field. -/
inductive Value where
  | text (s : String)
  | number (n : Nat)
  | flag (b : Bool)
  /-- the time an operation took, which only whoever runs the library knows -/
  | elapsed
  deriving DecidableEq, Repr

/-- A value as text. -/
def Value.toText : Value → String
  | .text s => s
  | .number n => toString n
  | .flag b => Text.ofBool b
  | .elapsed => "*"

/-- One event. -/
structure Event where
  level : Level
  /-- the part of the program that logged it -/
  target : String
  op : Option String := none
  event : Option String := none
  fields : List (String × Value) := []
  deriving DecidableEq, Repr

/-! ## Names of fields and events -/

/-- The field of the operation. -/
def opField : String := "op"

/-- The field of the event's name. -/
def eventField : String := "event"

/-- The field of the time an operation took. -/
def durationField : String := "duration_ms"

/-- The field of a request id. -/
def requestField : String := "request_id"

/-- The field of the token that a graph starts from. -/
def rootField : String := "root_token"

/-- The field of an error's kind. -/
def errorKindField : String := "err.kind"

/-- The field of an error's code. -/
def errorCodeField : String := "err.code"

/-- The field of the part of the program. -/
def componentField : String := "component"

/-- The field of an event's message. -/
def messageField : String := "message"

/-- The field names that readers of the log rely on. -/
def fieldNames : List String :=
  [opField, eventField, durationField, requestField, rootField, errorKindField, errorCodeField]

/-- An operation begins. -/
def startEvent : String := "start"

/-- An operation is done. -/
def endEvent : String := "end"

/-- An operation has failed. -/
def errorEvent : String := "end_error"

/-- A cached category overflowed and was emptied. -/
def resetEvent : String := "cache_reset"

/-- A refresh found nobody to send it to. -/
def missingEvent : String := "service_missing"

/-- The event names that readers of the log rely on. -/
def eventNames : List String := [startEvent, endEvent, errorEvent, resetEvent, missingEvent]

/-- All fields of an event, those of its operation and its name included. -/
def Event.allFields (e : Event) : List (String × Value) :=
  e.fields ++ e.op.toList.map (fun op => (opField, .text op)) ++
    e.event.toList.map (fun name => (eventField, .text name))

/-- Whether an event has a field. -/
def Event.hasField (e : Event) (name : String) : Bool := e.allFields.any (·.1 = name)

/-! ## The events of an operation -/

/-- An operation begins. -/
def started (target op : String) (fields : List (String × Value)) : Event :=
  { level := .info, target, op := some op, event := some startEvent
    fields := (componentField, .text target) :: fields }

/-- An operation is done, after the given time. -/
def ended (target op : String) (time : Value) (fields : List (String × Value)) : Event :=
  { level := .info, target, op := some op, event := some endEvent
    fields := (componentField, .text target) :: (durationField, time) :: fields }

/-- An operation has failed, after the given time. -/
def failed (target op : String) (time : Value) (e : Error) (fields : List (String × Value)) : Event :=
  { level := .error, target, op := some op, event := some errorEvent
    fields := (componentField, .text target) :: (durationField, time) :: (errorKindField, .text e.kind.name) ::
      (errorCodeField, .text e.kind.code) :: fields }

/-! ## Looking events up -/

/-- The events of one operation. -/
def eventsOf (op : String) (events : List Event) : List Event := events.filter (·.op = some op)

/-- Whether an operation logged an event. -/
def recorded (op event : String) (events : List Event) : Bool :=
  events.any fun e => e.op = some op && e.event = some event

end Lineage.Log
