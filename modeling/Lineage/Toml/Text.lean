import Lineage.Text.Hex
import Lineage.Toml.Reader

/-!
# Strings of a document

A string stands in double quotes with escapes, or in single quotes as it is. In three quotes of either kind it may have several
lines: a line end right after the opening is dropped, and up to two quotes may stand before the closing ones. In three double quotes a
backslash at the end of a line also drops that line end and the blanks and line ends after it.
-/

namespace Lineage.Toml.Reader

/-- What a reader of characters finds: the characters of a string, and what follows it. -/
abbrev Found := Option (List Char × List Char)

/-- One more character before those found. -/
def Found.cons (c : Char) (found : Found) : Found := found.map fun (cs, rest) => (c :: cs, rest)

/-- The character that digits behind a backslash name, before those found. -/
def Found.named (digits : List Char) (found : Found) : Found := ((Text.hex? digits).bind Text.scalar?).bind (found.cons ·)

/-- The character that a letter behind a backslash means. -/
def escaped? : Char → Option Char
  | 'b' => some '\x08'
  | 't' => some '\t'
  | 'n' => some '\n'
  | 'f' => some '\x0c'
  | 'r' => some '\r'
  | '"' => some '"'
  | '\\' => some '\\'
  | _ => none

/-- The rest of a string in double quotes. -/
def basicRest : List Char → Found
  | [] => none
  | '"' :: cs => some ([], cs)
  | '\\' :: 'u' :: a :: b :: c :: d :: cs => (basicRest cs).named [a, b, c, d]
  | '\\' :: 'U' :: a :: b :: c :: d :: e :: f :: g :: h :: cs => (basicRest cs).named [a, b, c, d, e, f, g, h]
  | '\\' :: e :: cs => (escaped? e).bind (basicRest cs).cons
  | c :: cs => if isPlain c then (basicRest cs).cons c else none

/-- Up to two quotes that stand right behind the three that would close a string: they belong to it. -/
def closing (quote : Char) : List Char → List Char × List Char
  | a :: b :: cs =>
    if a = quote then if b = quote then ([a, b], cs) else ([a], b :: cs) else ([], a :: b :: cs)
  | [a] => if a = quote then ([a], []) else ([], [a])
  | [] => ([], [])

/-- Whether a line ends after blanks. -/
def endsLine (cs : List Char) : Bool := (newline (cs.dropWhile isBlank)).isSome

/-- The rest of a string in three double quotes. While `dropping`, blanks and line ends are dropped. -/
def longBasicRest (dropping : Bool) : List Char → Found
  | [] => none
  | '"' :: '"' :: '"' :: cs => some (closing '"' cs)
  | '\r' :: '\n' :: cs => if dropping then longBasicRest true cs else (longBasicRest false cs).cons '\n'
  | '\n' :: cs => if dropping then longBasicRest true cs else (longBasicRest false cs).cons '\n'
  | '\\' :: 'u' :: a :: b :: c :: d :: cs => (longBasicRest false cs).named [a, b, c, d]
  | '\\' :: 'U' :: a :: b :: c :: d :: e :: f :: g :: h :: cs =>
    (longBasicRest false cs).named [a, b, c, d, e, f, g, h]
  | '\\' :: e :: cs =>
    if endsLine (e :: cs) then longBasicRest true (e :: cs) else (escaped? e).bind (longBasicRest false cs).cons
  | c :: cs =>
    if dropping && isBlank c then longBasicRest true cs
    else if isPlain c then (longBasicRest false cs).cons c
    else none

/-- The rest of a string in single quotes. -/
def literalRest : List Char → Found
  | [] => none
  | '\'' :: cs => some ([], cs)
  | c :: cs => if isPlain c then (literalRest cs).cons c else none

/-- The rest of a string in three single quotes. -/
def longLiteralRest : List Char → Found
  | [] => none
  | '\'' :: '\'' :: '\'' :: cs => some (closing '\'' cs)
  | '\r' :: '\n' :: cs => (longLiteralRest cs).cons '\n'
  | '\n' :: cs => (longLiteralRest cs).cons '\n'
  | c :: cs => if isPlain c then (longLiteralRest cs).cons c else none

/-- A text without the line end that it may start with. -/
def afterNewline (cs : List Char) : List Char :=
  match newline cs with
  | some (_, rest) => rest
  | none => cs

/-- What was found, as a text. -/
def Found.text (found : Found) : Option (String × List Char) := found.map fun (cs, rest) => (String.ofList cs, rest)

/-- A string on one line. -/
def shortText : Reader String
  | '"' :: cs => (basicRest cs).text
  | '\'' :: cs => (literalRest cs).text
  | _ => none

/-- A string in quotes of any kind. -/
def text : Reader String
  | '"' :: '"' :: '"' :: cs => (longBasicRest false (afterNewline cs)).text
  | '\'' :: '\'' :: '\'' :: cs => (longLiteralRest (afterNewline cs)).text
  | cs => shortText cs

end Lineage.Toml.Reader
