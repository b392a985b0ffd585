import Lineage.Text.Hex

/-!
# JSON strings

A JSON string stands in double quotes. Written, it escapes quotes, backslashes and control characters and nothing else. Reading takes
every escape of the format: a character beyond the first 65536 may be written as two escaped units, and one unit of such a pair alone
is refused, as are control characters that are not escaped.
-/

namespace Lineage.Text.JsonString

/-- How one character stands in a written string. -/
def encodeChar (c : Char) : List Char :=
  if c = '"' ∨ c = '\\' then ['\\', c]
  else if c = '\x08' then ['\\', 'b']
  else if c = '\t' then ['\\', 't']
  else if c = '\n' then ['\\', 'n']
  else if c = '\x0c' then ['\\', 'f']
  else if c = '\r' then ['\\', 'r']
  else if c < ' ' then '\\' :: 'u' :: hexOf 4 c.toNat
  else [c]

/-- A text as a JSON string. -/
def encode (s : String) : String := String.ofList ('"' :: s.toList.flatMap encodeChar ++ ['"'])

/-- A piece of a string: a character, or a unit of 16 bits. -/
inductive Piece where
  | char (c : Char)
  | unit (n : Nat)
  deriving DecidableEq, Repr

/-- The character behind a backslash and a letter. -/
def escaped? : Char → Option Char
  | '"' => some '"'
  | '\\' => some '\\'
  | '/' => some '/'
  | 'b' => some '\x08'
  | 'f' => some '\x0c'
  | 'n' => some '\n'
  | 'r' => some '\r'
  | 't' => some '\t'
  | _ => none

/-- The pieces of a string up to the quote that closes it, and what follows that quote. -/
def pieces : List Char → Option (List Piece × List Char)
  | [] => none
  | '"' :: cs => some ([], cs)
  | '\\' :: 'u' :: a :: b :: c :: d :: cs => do
    let n ← hex? [a, b, c, d]
    let (ps, rest) ← pieces cs
    some (.unit n :: ps, rest)
  | '\\' :: e :: cs => do
    let c ← escaped? e
    let (ps, rest) ← pieces cs
    some (.char c :: ps, rest)
  | c :: cs => do
    if c < ' ' then none
    let (ps, rest) ← pieces cs
    some (.char c :: ps, rest)

/-- Whether a unit is the first of a pair. -/
def isLeading (n : Nat) : Bool := 0xD800 ≤ n && n < 0xDC00

/-- Whether a unit is the second of a pair. -/
def isTrailing (n : Nat) : Bool := 0xDC00 ≤ n && n < 0xE000

/-- The number of the character that a pair of units stands for. -/
def paired (m n : Nat) : Nat := 0x10000 + (m - 0xD800) * 0x400 + (n - 0xDC00)

/-- The characters that pieces make. -/
def assemble : List Piece → Option (List Char)
  | [] => some []
  | .char c :: ps => (assemble ps).map (c :: ·)
  | .unit m :: .unit n :: ps =>
    if isLeading m then
      if isTrailing n then do
        let c ← scalar? (paired m n)
        let cs ← assemble ps
        some (c :: cs)
      else none
    else do
      let c ← scalar? m
      let cs ← assemble (.unit n :: ps)
      some (c :: cs)
  | .unit m :: ps => do
    let c ← scalar? m
    let cs ← assemble ps
    some (c :: cs)

/-- Whether a character may stand around a JSON value. -/
def isSpace (c : Char) : Bool := c = ' ' || c = '\t' || c = '\n' || c = '\r'

/-- The text that a JSON string writes, if the given text is a JSON string and no more. -/
def decode? (s : String) : Option String := do
  match s.toList.dropWhile isSpace with
  | '"' :: cs =>
    let (ps, rest) ← pieces cs
    if rest.all isSpace then (assemble ps).map String.ofList else none
  | _ => none

end Lineage.Text.JsonString
