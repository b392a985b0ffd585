import Lineage.Toml.Value

/-!
# Records in documents

Settings and fixtures are records: they have named fields, some of which may be left out. A record is written as a table, whose other
keys do not matter, or as an array of its fields in order. A date or time is taken for a table without any of the keys.
-/

namespace Lineage.Toml.Value

/-- What a value says about the fields of a record, given the names of all fields in order. -/
def fields? (names : List String) : Value → Option (String → Option Value)
  | .table _ ms => some (Members.value? ms)
  | .array items | .tables items => some (Members.value? (names.zip items))
  | .moment => some fun _ => none
  | _ => none

/-- A text. -/
def text? : Value → Option String
  | .text s => some s
  | _ => none

/-- A truth value. -/
def flag? : Value → Option Bool
  | .flag b => some b
  | _ => none

/-- A number without a sign. -/
def number? : Value → Option Nat
  | .integer (.ofNat n) => some n
  | _ => none

/-- The items of a list. -/
def items? : Value → Option (List Value)
  | .array items | .tables items => some items
  | _ => none

/-- A list of which every item can be read. -/
def listOf? {α : Type} (read : Value → Option α) (v : Value) : Option (List α) := v.items?.bind (·.mapM read)

/-- Whether a list or a table has no parts. -/
def isEmpty : Value → Bool
  | .array items | .tables items => items.isEmpty
  | .table _ ms => ms.isEmpty
  | _ => false

/-- A choice between names: the name as a text, or as the one key of a table that has nothing below it. -/
def choice? {α : Type} (ofName? : String → Option α) : Value → Option α
  | .text name => ofName? name
  | .table _ [(name, v)] => if v.isEmpty then ofName? name else none
  | _ => none

/-- A field that must be there. -/
def required {α : Type} (read : Value → Option α) (field : Option Value) : Option α := field.bind read

/-- A field that may be left out. -/
def withDefault {α : Type} (default : α) (read : Value → Option α) : Option Value → Option α
  | none => some default
  | some v => read v

end Lineage.Toml.Value
