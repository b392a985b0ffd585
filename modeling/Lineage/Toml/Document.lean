import Lineage.Toml.Definition
import Lineage.Toml.Scalar

/-!
# Documents

A document is read line by line into statements: a header opens a table, and the keys after it are defined in that table. The
statements are then carried out in order. A text that breaks a rule of the format is no document.
-/

namespace Lineage.Toml

namespace Reader

/-- Whether a character may stand in a key without quotes. -/
def isBare (c : Char) : Bool :=
  ('a' ≤ c && c ≤ 'z') || ('A' ≤ c && c ≤ 'Z') || isDigit c || c = '-' || c = '_'

/-- One part of a key. -/
def simpleKey : Reader String :=
  shortText <|> (do
    let c ← one isBare
    pure (String.ofList (c :: (← span isBare))))

/-- A key has fewer parts than this, and values have fewer values around them. -/
def depthLimit : Nat := 80

/-- One part of a key, with blanks around it. -/
def keyPart : Reader String := do
  blanks
  let part ← simpleKey
  blanks
  pure part

/-- A key, dotted or not, as the path to its last part and that part. -/
def key : Reader (List String × String) := do
  let first ← keyPart
  let others ← many do
    char '.'
    keyPart
  let parts := first :: others
  if depthLimit ≤ parts.length then fail
  pure (parts.dropLast, parts.getLastD first)

/-- A key with its value, of which the reader is given. -/
def definition (value : Reader Value) : Reader ((List String × String) × Value) := do
  let k ← key
  char '='
  blanks
  pure (k, ← value)

/-- An array. -/
def array (value : Reader Value) : Reader Value := do
  char '['
  let items ← optional do
    let items ← commaSeparated do
      gap
      let v ← value
      gap
      pure v
    discard (optional (char ','))
    pure items
  gap
  char ']'
  pure (.array (items.getD []))

/-- The table that definitions make. -/
def inlineOf (ds : List ((List String × String) × Value)) : Option Members :=
  ds.foldlM (fun ms ((path, key), v) => Members.define path key v .inline ms) []

/-- A table between braces. -/
def inlineTable (value : Reader Value) : Reader Value := do
  char '\x7b'
  let definitions ← optional (commaSeparated do
    let d ← definition value
    blanks
    pure d)
  blanks
  char '\x7d'
  pure (.table .inline (← ofOption (inlineOf (definitions.getD []))))

/-- A value with at most so many values around each of its parts. -/
def valueWithin : Nat → Reader Value
  | 0 => scalar
  | n + 1 => scalar <|> array (valueWithin n) <|> inlineTable (valueWithin n)

/-- A value. -/
def value : Reader Value := valueWithin (depthLimit - 1)

end Reader

/-- A line of a document that says something. -/
inductive Statement where
  /-- the header of a table -/
  | table (path : List String) (key : String)
  /-- the header of one more table of a list -/
  | element (path : List String) (key : String)
  /-- a key with its value -/
  | define (path : List String) (key : String) (v : Value)
  deriving Repr

namespace Reader

/-- The header of one more table of a list. -/
def elementHeader : Reader Statement := do
  word ['[', '[']
  let (path, k) ← key
  word [']', ']']
  trailing
  pure (.element path k)

/-- The header of a table. -/
def tableHeader : Reader Statement := do
  char '['
  let (path, k) ← key
  char ']'
  trailing
  pure (.table path k)

/-- A key with its value, on a line. -/
def defining : Reader Statement := do
  let ((path, k), v) ← definition value
  trailing
  pure (.define path k v)

/-- A line: a statement, or nothing but a comment at most. -/
def line : Reader (Option Statement) := do
  let statement ←
    (do newline; pure none) <|> (do comment; lineEnd; pure none) <|>
      (do pure (some (← elementHeader <|> tableHeader <|> defining)))
  blanks
  pure statement

/-- The statements of a document, which may begin with a byte order mark. -/
def statements : Reader (List Statement) := do
  discard (optional (char '\uFEFF'))
  blanks
  let lines ← many line
  atEnd
  pure (lines.filterMap id)

end Reader

/-- A document in the making: its members, and the path of the table that the last header opened. -/
structure Draft where
  members : Members
  path : List String

namespace Draft

/-- Carries out a statement. -/
def add (d : Draft) : Statement → Option Draft
  | .table path key =>
    (Members.update .implied (Members.openTable key) path .header d.members).map (⟨·, path ++ [key]⟩)
  | .element path key =>
    (Members.update .implied (Members.openElement key) path .header d.members).map (⟨·, path ++ [key]⟩)
  | .define path key v =>
    (Members.update .implied (Members.define path key v) d.path .header d.members).map (⟨·, d.path⟩)

end Draft

/-- The document that a text writes. -/
def document? (s : String) : Option Value := do
  let (statements, _) ← Reader.statements s.toList
  let d ← statements.foldlM Draft.add ⟨[], []⟩
  pure (.table .header d.members)

end Lineage.Toml
