import Lineage.Text.Printable

/-!
# Quoted text and records

The form in which values are shown for diagnosis: a text stands in double quotes with everything that cannot be seen escaped, and a
record shows its name and its fields.
-/

namespace Lineage.Text

/-- A code point in braces, in lower-case hexadecimal without leading zeros. -/
def codePoint (c : Char) : List Char := ['\\', 'u', '\x7b'] ++ Nat.toDigits 16 c.toNat ++ ['\x7d']

/-- How one character stands inside quoted text. -/
def quoteChar (c : Char) : List Char :=
  if c = '\x00' then ['\\', '0']
  else if c = '\t' then ['\\', 't']
  else if c = '\r' then ['\\', 'r']
  else if c = '\n' then ['\\', 'n']
  else if c = '\\' ∨ c = '"' then ['\\', c]
  else if isShown c then [c]
  else codePoint c

/-- A text in double quotes, escaped. -/
def quote (s : String) : String := String.ofList ('"' :: s.toList.flatMap quoteChar ++ ['"'])

/-- Fields of a record: the name of each and the text of its value. -/
abbrev Fields := List (String × String)

/-- Fields as they stand between the braces of a record. -/
def fieldTexts (fs : Fields) : List String := fs.map fun f => f.1 ++ ": " ++ f.2

/-- A record with its fields. -/
def record (name : String) (fs : Fields) : String :=
  name ++ " \x7b " ++ ", ".intercalate (fieldTexts fs) ++ " \x7d"

/-- A record that shows the given fields and says that it has more. -/
def openRecord (name : String) (fs : Fields) : String :=
  name ++ " \x7b " ++ ", ".intercalate (fieldTexts fs ++ [".."]) ++ " \x7d"

/-- A name applied to one value, as in `NodeId(3)`. -/
def applied (name value : String) : String := name ++ "(" ++ value ++ ")"

/-- A list of shown values in brackets. -/
def bracketed (items : List String) : String := "[" ++ ", ".intercalate items ++ "]"

/-- The text of a truth value. -/
def ofBool (b : Bool) : String := if b then "true" else "false"

end Lineage.Text
