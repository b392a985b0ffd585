/-!
# Readers

A reader takes a value off the front of a text and leaves the rest, or does not read. The readers here are those that every part of a
document needs: blanks, line ends and comments.
-/

namespace Lineage.Toml

/-- A reader of values of type `α`. -/
def Reader (α : Type) : Type := List Char → Option (α × List Char)

namespace Reader

variable {α β : Type}

instance : Monad Reader where
  pure a := fun cs => some (a, cs)
  bind r f := fun cs => (r cs).bind fun (a, rest) => f a rest

/-- Reads nothing. -/
def fail : Reader α := fun _ => none

/-- The value, if there is one. -/
def ofOption (o : Option α) : Reader α := fun cs => o.map (·, cs)

/-- What the first of two readers reads, or else the second. -/
def orElse (r : Reader α) (s : Unit → Reader α) : Reader α := fun cs =>
  match r cs with
  | some found => some found
  | none => s () cs

instance : OrElse (Reader α) := ⟨orElse⟩

/-- One character of a class. -/
def one (p : Char → Bool) : Reader Char
  | [] => none
  | c :: cs => if p c then some (c, cs) else none

/-- The given character. -/
def char (c : Char) : Reader Unit := discard (one (· = c))

/-- The given characters. -/
def word : List Char → Reader Unit
  | [] => pure ()
  | c :: cs => do
    char c
    word cs

/-- All characters of a class up to the first other one. -/
def span (p : Char → Bool) : Reader (List Char) := fun cs => some (cs.span p)

/-- What a reader reads, if it does. -/
def optional (r : Reader α) : Reader (Option α) := fun cs =>
  match r cs with
  | some (a, rest) => some (some a, rest)
  | none => some (none, cs)

/-- The end of the text. -/
def atEnd : Reader Unit
  | [] => some ((), [])
  | _ :: _ => none

/-- What a reader reads again and again until it does not, a given number of times at most. -/
def manyWithin (r : Reader α) : Nat → Reader (List α)
  | 0 => pure []
  | n + 1 => fun cs =>
    match r cs with
    | none => some ([], cs)
    | some (a, rest) => (manyWithin r n rest).map fun (as, rest) => (a :: as, rest)

/-- What a reader of at least one character reads again and again until it does not. -/
def many (r : Reader α) : Reader (List α) := fun cs => manyWithin r cs.length cs

/-- One value at least, and a comma between each two. -/
def commaSeparated (r : Reader α) : Reader (List α) := do
  let first ← r
  let others ← many do
    char ','
    r
  pure (first :: others)

/-- Whether a character is a decimal digit. -/
def isDigit (c : Char) : Bool := '0' ≤ c && c ≤ '9'

/-- Whether a character may stand in a comment: everything but control characters, of which the tabulator is allowed. -/
def isPlain (c : Char) : Bool := c = '\t' || (' ' ≤ c && c ≠ '\x7f')

/-- Whether a character is a blank within a line. -/
def isBlank (c : Char) : Bool := c = ' ' || c = '\t'

/-- Blanks within a line. -/
def blanks : Reader Unit := discard (span isBlank)

/-- The end of a line. -/
def newline : Reader Unit
  | '\n' :: cs => some ((), cs)
  | '\r' :: '\n' :: cs => some ((), cs)
  | _ => none

/-- A comment, up to the end of its line. -/
def comment : Reader Unit := do
  char '#'
  discard (span isPlain)

/-- The end of a line, or of the text. -/
def lineEnd : Reader Unit := newline <|> atEnd

/-- What may stand between a statement and the end of its line, and that end. -/
def trailing : Reader Unit := do
  blanks
  discard (optional comment)
  lineEnd

/-- Whatever separates the items of an array: blanks, line ends and comments that end with their line. -/
def gap : Reader Unit := discard (many (discard (one isBlank) <|> newline <|> (do comment; newline)))

end Reader
end Lineage.Toml
