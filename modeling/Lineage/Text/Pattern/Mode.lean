import Lineage.Text.Blank

/-!
# How a pattern is read

Flags within a pattern change how the rest of it is read. Three of them decide what is a pattern: whether letters of different case are
the same, whether the pattern is about all characters or about those of ASCII only, and whether blanks and comments are skipped.

Patterns are taken without tables of letter cases and of classes of characters. So a wide pattern may not ask for what would need one of
them, and a narrow pattern may not ask for what is not ASCII.
-/

namespace Lineage.Text.Pattern

/-- What flags have set. -/
structure Mode where
  /-- whether letters of different case are the same -/
  ignoresCase : Bool
  /-- whether the pattern is about all characters, and not about those of ASCII only -/
  isWide : Bool
  /-- whether blanks and comments are skipped -/
  isSpaced : Bool
  deriving DecidableEq, Repr

/-- The text behind blanks and comments, where the text may begin inside of a comment. A comment goes from its sign to the end of the
line. -/
def afterBlanks : Bool → List Char → List Char
  | _, [] => []
  | true, c :: cs => afterBlanks (c ≠ '\n') cs
  | false, c :: cs =>
    if isBlank c then afterBlanks false cs else if c = '#' then afterBlanks true cs else c :: cs

namespace Mode

/-- No flags are set. -/
def start : Mode := ⟨false, true, false⟩

/-- The text from its next part on. -/
def skip (m : Mode) (cs : List Char) : List Char := if m.isSpaced then afterBlanks false cs else cs

/-- The next character of a text, as far as can be seen from before it: blanks are looked through, and so is the sign of one comment,
but not the comment. -/
def glimpse? (m : Mode) (cs : List Char) : Option Char :=
  if m.isSpaced then
    match cs.dropWhile isBlank with
    | '#' :: cs => (cs.dropWhile isBlank).head?
    | cs => cs.head?
  else cs.head?

/-- Whether a character may be asked for outside of brackets. One that is named by its byte is refused in a narrow pattern when it is
not ASCII. -/
def allows (m : Mode) (isByte : Bool) (c : Char) : Bool := if m.isWide then !m.ignoresCase else !isByte || c.toNat < 0x80

/-- Whether a character may be asked for within brackets. -/
def allowsMember (m : Mode) (c : Char) : Bool := if m.isWide then !m.ignoresCase else c.toNat < 0x80

/-! ## Flags -/

/-- Whether flags are well written: each once, and a minus before the last of them at most. -/
def areFlags (fs : List Char) : Bool :=
  fs.all (· ∈ ['i', 'm', 's', 'U', 'u', 'R', 'x', '-']) && fs.Nodup && fs.getLast? ≠ some '-'

/-- What flags make of what one of them sets. Those behind a minus are taken back. -/
def setting (fs : List Char) (flag : Char) (before : Bool) : Bool :=
  if flag ∈ fs then flag ∈ fs.takeWhile (· ≠ '-') else before

/-- What flags make of a mode. -/
def under (m : Mode) (fs : List Char) : Mode :=
  ⟨setting fs 'i' m.ignoresCase, setting fs 'u' m.isWide, setting fs 'x' m.isSpaced⟩

end Mode
end Lineage.Text.Pattern
