import Lineage.Text.Hex
import Lineage.Text.Pattern.Mode

/-!
# Escapes in patterns

What a backslash and the characters behind it mean.
-/

namespace Lineage.Text.Pattern

/-- What is behind a backslash. -/
inductive Escape where
  /-- a character, which may be named by its byte -/
  | char (isByte : Bool) (c : Char)
  /-- the beginning or the end of the text -/
  | textEdge
  /-- a place at the edge of a word, or not at one -/
  | wordEdge
  /-- the digits, the blanks or the characters of words, or all others -/
  | charsOf (isNegated : Bool)
  deriving DecidableEq, Repr

/-- The character that a single character behind a backslash means. Signs stand for themselves; other letters and digits are kept for
other uses. -/
def escaped? : Char → Option Char
  | 'a' => some '\x07'
  | 'f' => some '\x0c'
  | 't' => some '\t'
  | 'n' => some '\n'
  | 'r' => some '\r'
  | 'v' => some '\x0b'
  | c => if c.toNat < 0x80 && !c.isAlphanum then some c else none

/-- So many hexadecimal digits, and what follows them. -/
def digits? (m : Mode) : Nat → List Char → Option (List Char × List Char)
  | 0, cs => some ([], cs)
  | n + 1, cs =>
    match m.skip cs with
    | [] => none
    | c :: cs => if (hexDigit? c).isSome then (digits? m n cs).map fun (ds, rest) => (c :: ds, rest) else none

/-- The character whose code point so many digits write, and what follows them. -/
def numbered? (m : Mode) (width : Nat) (cs : List Char) : Option (Escape × List Char) := do
  let (digits, rest) ← digits? m width cs
  let c ← (hex? digits).bind scalar?
  pure (.char (width = 2) c, rest)

/-- What is behind a backslash, and what follows it. -/
def escape? (m : Mode) : List Char → Option (Escape × List Char)
  | [] => none
  | c :: cs =>
    match c with
    | 'x' => numbered? m 2 cs
    | 'u' => numbered? m 4 cs
    | 'U' => numbered? m 8 cs
    | 'A' | 'z' => some (.textEdge, cs)
    | 'b' | 'B' | '<' | '>' => some (.wordEdge, cs)
    | 'd' | 's' | 'w' => some (.charsOf false, cs)
    | 'D' | 'S' | 'W' => some (.charsOf true, cs)
    | c => (escaped? c).map (.char false ·, cs)

/-- Whether an escape may stand outside of brackets. -/
def Mode.allowsEscape (m : Mode) : Escape → Bool
  | .char isByte c => m.allows isByte c
  | .textEdge => true
  | .wordEdge => !m.isWide
  | .charsOf isNegated => !m.isWide && !isNegated

end Lineage.Text.Pattern
