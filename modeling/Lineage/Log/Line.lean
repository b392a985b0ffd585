import Lineage.Log.Event
import Lineage.Text.JsonString

/-!
# Lines of the log

An event is written on one line, as a JSON object for programs or as plain text for readers. When it is written, and how many
milliseconds its operation took, is known to whoever writes it.
-/

namespace Lineage.Log

/-- A value, with the time an operation took filled in. -/
def Value.timed (elapsed : Nat) : Value → Value
  | .elapsed => .number elapsed
  | v => v

namespace Line

/-- A value in JSON. -/
def jsonValue : Value → String
  | .text s => Text.JsonString.encode s
  | v => v.toText

/-- A member of a JSON object. -/
def member (name value : String) : String := Text.JsonString.encode name ++ ":" ++ value

/-- A JSON object. -/
def object (members : List String) : String := "\x7b" ++ ",".intercalate members ++ "\x7d"

/-- An event as a JSON object. -/
def json (timestamp : String) (elapsed : Nat) (e : Event) : String :=
  object [member "timestamp" (Text.JsonString.encode timestamp), member "level" (Text.JsonString.encode e.level.name),
    member "fields" (object (e.allFields.map fun (name, v) => member name (jsonValue (v.timed elapsed)))),
    member "target" (Text.JsonString.encode e.target)]

/-- A field for readers. Only the message stands without its name. -/
def plainField (name : String) (v : Value) : String :=
  if name = messageField then v.toText
  else
    match v with
    | .text s => name ++ "=" ++ Text.quote s
    | v => name ++ "=" ++ v.toText

/-- An event for readers. -/
def plain (timestamp : String) (elapsed : Nat) (e : Event) : String :=
  " ".intercalate ([timestamp, e.level.name, e.target ++ ":"] ++
    e.allFields.map fun (name, v) => plainField name (v.timed elapsed))

end Line
end Lineage.Log
