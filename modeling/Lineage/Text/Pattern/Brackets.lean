import Lineage.Text.Pattern.Escape

/-!
# Brackets in patterns

Characters in brackets: single ones, ranges, classes with a name and further brackets, side by side or with operators between them.
Reading brackets finds out how deep they are, because the depth of a pattern is limited.
-/

namespace Lineage.Text.Pattern

/-! ## Depth -/

/-- Parts that stand side by side: how many there are, and how deep the deepest is. -/
structure Row where
  size : Nat
  depth : Nat
  deriving DecidableEq, Repr

namespace Row

/-- No parts. -/
def empty : Row := ⟨0, 0⟩

/-- One more part. -/
def add (r : Row) (depth : Nat) : Row := ⟨r.size + 1, max r.depth depth⟩

/-- The depth of the parts together. One part alone is as deep as it is. -/
def total (r : Row) : Nat := if r.size ≤ 1 then r.depth else r.depth + 1

end Row

/-- The depth of a last part and of what goes before it, if there is something. -/
def joined (before : Option Nat) (depth : Nat) : Nat :=
  match before with
  | none => depth
  | some d => max d depth + 1

/-! ## Members -/

/-- The names of classes of ASCII. -/
def classNames : List String :=
  ["alnum", "alpha", "ascii", "blank", "cntrl", "digit", "graph", "lower", "print", "punct", "space", "upper", "word", "xdigit"]

/-- Whether a class with a name between colons is negated, of which the bracket before it was read, and what follows it. -/
def named? : List Char → Option (Bool × List Char)
  | ':' :: cs =>
    let isNegated := cs.head? = some '^'
    let cs := if isNegated then cs.tail else cs
    match cs.dropWhile (· ≠ ':') with
    | ':' :: ']' :: rest => if String.ofList (cs.takeWhile (· ≠ ':')) ∈ classNames then some (isNegated, rest) else none
    | _ => none
  | _ => none

/-- Whether a class with a name may be asked for. -/
def Mode.allowsNamed (m : Mode) (isNegated : Bool) : Bool := if m.isWide then !m.ignoresCase else !isNegated

/-- One member, which is a character unless it is a class, and what follows it. -/
def member? (m : Mode) : List Char → Option (Option Char × List Char)
  | [] => none
  | '\\' :: cs =>
    match escape? m cs with
    | some (.char _ c, rest) => if m.allowsMember c then some (some c, rest) else none
    | some (.charsOf isNegated, rest) => if m.allowsEscape (.charsOf isNegated) then some (none, rest) else none
    | _ => none
  | c :: cs => if m.allowsMember c then some (some c, cs) else none

/-- What follows one member and, if a dash makes it the first of a range, the last one of that range. -/
def afterMember? (m : Mode) (first : Option Char) (cs : List Char) : Option (List Char) :=
  match m.skip cs with
  | '-' :: more =>
    if m.glimpse? more = some ']' ∨ m.glimpse? more = some '-' then some ('-' :: more)
    else
      match first, member? m (m.skip more) with
      | some c, some (some d, rest) => if c ≤ d then some rest else none
      | _, _ => none
  | cs => some cs

/-! ## Brackets -/

/-- Brackets that are open. -/
structure Bracket where
  /-- the depth of what is left of the last operator -/
  left : Option Nat
  /-- the members behind it -/
  members : Row
  /-- whether nothing but dashes has been read -/
  isFresh : Bool
  deriving DecidableEq, Repr

namespace Bracket

/-- Brackets with nothing in them. -/
def start : Bracket := ⟨none, .empty, true⟩

/-- One more member. -/
def add (b : Bracket) (depth : Nat) : Bracket := ⟨b.left, b.members.add depth, false⟩

/-- One more dash, of those that begin the brackets. -/
def addDash (b : Bracket) : Bracket := { b with members := b.members.add 0 }

/-- The depth of what is in the brackets. -/
def depth (b : Bracket) : Nat := joined b.left b.members.total

/-- An operator. -/
def operator (b : Bracket) : Bracket := ⟨some b.depth, .empty, false⟩

end Bracket

/-- What follows an opening bracket and a negation behind it. -/
def opened? (m : Mode) (cs : List Char) : Option (List Char) :=
  match m.skip cs with
  | '^' :: cs => if m.isWide then some cs else none
  | cs => some cs

/-- The depth of brackets within others, and what follows the outermost, read in a given number of steps at most. A bracket that closes
nothing stands for itself, and so do dashes that begin brackets. -/
def bracketsWithin (m : Mode) : Nat → List Bracket → Bracket → List Char → Option (Nat × List Char)
  | 0, _, _, _ => none
  | n + 1, outer, b, cs =>
    match m.skip cs with
    | [] => none
    | '[' :: cs =>
      match named? cs with
      | some (isNegated, rest) => if m.allowsNamed isNegated then bracketsWithin m n outer (b.add 0) rest else none
      | none => (opened? m cs).bind (bracketsWithin m n (b :: outer) .start)
    | '&' :: '&' :: cs | '~' :: '~' :: cs => bracketsWithin m n outer b.operator cs
    | c :: cs =>
      if c = '-' ∧ b.isFresh then
        if m.allowsMember c then bracketsWithin m n outer b.addDash cs else none
      else if c = '-' ∧ cs.head? = some '-' then bracketsWithin m n outer b.operator cs.tail
      else if c = ']' ∧ (!b.isFresh ∨ b.members.size ≠ 0) then
        match outer with
        | [] => some (b.depth + 1, cs)
        | o :: outer => bracketsWithin m n outer (o.add (b.depth + 1)) cs
      else do
        let (first, rest) ← member? m (c :: cs)
        bracketsWithin m n outer (b.add 0) (← if c = ']' then some rest else afterMember? m first rest)

/-- The depth of brackets, of which the first was read, and what follows them. Every step reads a character. -/
def brackets? (m : Mode) (cs : List Char) : Option (Nat × List Char) :=
  (opened? m cs).bind (bracketsWithin m (cs.length + 1) [] .start)

end Lineage.Text.Pattern
