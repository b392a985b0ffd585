/-!
# Values of a TOML document

A document is a table. How a table came to be decides who may still add to it, so every table carries its origin; whoever reads a
finished document does not look at it.
-/

namespace Lineage.Toml

/-- How a table came to be. -/
inductive Origin where
  /-- by a header of its own, or as the document itself -/
  | header
  /-- on the path of a header for another table -/
  | implied
  /-- on the path of a dotted key -/
  | dotted
  /-- between braces, complete -/
  | inline
  deriving DecidableEq, Repr

/-- A value. Of numbers with a fraction, and of dates and times, it is kept only that they are such. -/
inductive Value where
  | text (s : String)
  | integer (n : Int)
  | float
  | flag (b : Bool)
  | moment
  /-- an array between brackets, complete -/
  | array (items : List Value)
  /-- tables that are listed by headers, the last of which may still grow -/
  | tables (items : List Value)
  | table (origin : Origin) (members : List (String × Value))
  deriving Repr

/-- The values of a table, each under its key. -/
abbrev Members := List (String × Value)

/-- The value of a key. -/
def Members.value? (ms : Members) (key : String) : Option Value := (ms.find? (·.1 = key)).map (·.2)

/-- Gives a key a value, in place of the one it had. -/
def Members.put (key : String) (v : Value) : Members → Members
  | [] => [(key, v)]
  | (k, w) :: rest => if k = key then (k, v) :: rest else (k, w) :: put key v rest

end Lineage.Toml
