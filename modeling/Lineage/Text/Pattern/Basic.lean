import Lineage.Text.Alphanumeric
import Lineage.Text.Pattern.Brackets

/-!
# Patterns

Which texts are regular expressions. Nothing is matched here: whoever reads a pattern only has to know whether it is one. Counted
repetition is refused: where patterns are used, a closing brace ends the pattern. A pattern may not be deeper than a limit, where each
group, repetition, bracket and row of several parts counts.
-/

namespace Lineage.Text.Pattern

/-- How deep a pattern may be. -/
def depthLimit : Nat := 250

/-! ## Groups -/

/-- A group that is open. The whole pattern is one, too. -/
structure Group where
  mode : Mode
  /-- the depth of the deepest of the alternatives before the last bar -/
  left : Option Nat
  /-- the parts behind it, but for one that can be repeated at their end -/
  earlier : Row
  /-- the depth of the part at their end, if it can be repeated -/
  last : Option Nat
  deriving DecidableEq, Repr

namespace Group

/-- A group with nothing in it. -/
def start (m : Mode) : Group := ⟨m, none, .empty, none⟩

/-- The parts behind the last bar. -/
def parts (g : Group) : Row :=
  match g.last with
  | none => g.earlier
  | some depth => g.earlier.add depth

/-- One more part, which can be repeated. -/
def add (g : Group) (depth : Nat) : Group := { g with earlier := g.parts, last := some depth }

/-- Flags for the rest of the group. They are a part that cannot be repeated. -/
def addFlags (g : Group) (fs : List Char) : Group :=
  { g with mode := g.mode.under fs, earlier := g.parts.add 0, last := none }

/-- A bar. -/
def bar (g : Group) : Group :=
  { g with left := some (max (g.left.getD 0) g.parts.total), earlier := .empty, last := none }

/-- A repetition of the last part, if there is one. -/
def repeated? (g : Group) : Option Group := g.last.map fun depth => { g with last := some (depth + 1) }

/-- The depth of what is in the group. -/
def depth (g : Group) : Nat := joined g.left g.parts.total

end Group

/-- How far a pattern has been read. -/
structure Progress where
  /-- the groups around the innermost one -/
  outer : List Group
  /-- the innermost group -/
  group : Group
  /-- the names of groups so far -/
  names : List (List Char)
  deriving DecidableEq, Repr

namespace Progress

/-- Nothing has been read. -/
def start : Progress := ⟨[], .start .start, []⟩

/-- A group has begun, under flags. -/
def opened (p : Progress) (fs : List Char) : Progress :=
  { p with outer := p.group :: p.outer, group := .start (p.group.mode.under fs) }

/-- A group has ended, if one was open. -/
def closed? (p : Progress) : Option Progress :=
  match p.outer with
  | [] => none
  | g :: outer => some { p with outer, group := g.add (p.group.depth + 1) }

/-- A part has been read. -/
def add (p : Progress) (depth : Nat) : Progress := { p with group := p.group.add depth }

/-- Whether the pattern may end. -/
def isComplete (p : Progress) : Bool := p.outer = [] && p.group.depth ≤ depthLimit

end Progress

/-- Flags behind a question mark, for a group or for the rest of the group around them. -/
def readFlags (p : Progress) (cs : List Char) : Option (Progress × List Char) :=
  let isEnd (c : Char) : Bool := c = ':' || c = ')'
  let fs := cs.takeWhile (!isEnd ·)
  if !Mode.areFlags fs then none
  else
    match cs.dropWhile (!isEnd ·) with
    | [] => none
    | ':' :: rest => some (p.opened fs, rest)
    | _ :: rest => if fs = [] then none else some ({ p with group := p.group.addFlags fs }, rest)

/-- Whether a text can name a group. -/
def isName : List Char → Bool
  | [] => false
  | c :: cs => (c = '_' || isAlphabetic c) && cs.all fun c => isAlphanumeric c || c ∈ ['_', '.', '[', ']']

/-- The name of a group up to its closing bracket. No two groups have one name. -/
def readName (p : Progress) (cs : List Char) : Option (Progress × List Char) :=
  let name := cs.takeWhile (· ≠ '>')
  match cs.dropWhile (· ≠ '>') with
  | [] => none
  | _ :: rest => if isName name && name ∉ p.names then some ({ p with names := name :: p.names }.opened [], rest) else none

/-- What begins with a parenthesis, which was read: a group, or flags. -/
def readOpening (p : Progress) (cs : List Char) : Option (Progress × List Char) :=
  match p.group.mode.skip cs with
  | '?' :: 'P' :: '<' :: cs | '?' :: '<' :: cs => readName p cs
  | '?' :: cs => readFlags p cs
  | cs => some (p.opened [], cs)

/-! ## Reading -/

/-- Reads the next part of a pattern, which begins with a character. -/
def readPart (p : Progress) (c : Char) (cs : List Char) : Option (Progress × List Char) :=
  let m := p.group.mode
  match c with
  | '(' => readOpening p cs
  | ')' => p.closed?.map (·, cs)
  | '|' => some ({ p with group := p.group.bar }, cs)
  | '[' => (brackets? m cs).map fun (depth, rest) => (p.add depth, rest)
  | '*' | '+' | '?' =>
    p.group.repeated?.map fun group => ({ p with group }, if cs.head? = some '?' then cs.tail else cs)
  | '\x7b' => none
  | '^' | '$' => some (p.add 0, cs)
  | '.' => if m.isWide then some (p.add 0, cs) else none
  | '\\' => (escape? m cs).bind fun (e, rest) => if m.allowsEscape e then some (p.add 0, rest) else none
  | c => if m.allows false c then some (p.add 0, cs) else none

/-- Whether the rest of a text completes a pattern, read in a given number of steps at most. -/
def completesWithin : Nat → Progress → List Char → Bool
  | n, p, cs =>
    match n, p.group.mode.skip cs with
    | _, [] => p.isComplete
    | 0, _ :: _ => false
    | n + 1, c :: cs =>
      match readPart p c cs with
      | some (p, rest) => completesWithin n p rest
      | none => false

/-- Whether a text is a pattern. Every step reads a character. -/
def isPattern (cs : List Char) : Bool := completesWithin cs.length .start cs

end Lineage.Text.Pattern
