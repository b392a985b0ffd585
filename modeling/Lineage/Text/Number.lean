/-!
# Numbers in decimal, and the 64-bit words among them
-/

namespace Lineage.Text

/-- The first number that is not a 64-bit word. -/
def wordLimit : Nat := 1 <<< 64

/-- The value of a digit of ASCII. -/
def digit? (c : Char) : Option Nat := if '0' ≤ c ∧ c ≤ '9' then some (c.toNat - '0'.toNat) else none

/-- The number that a list of digits continues, read in a base: each digit counts for what the given function says. -/
def digitsFrom (base : Nat) (value? : Char → Option Nat) (n : Nat) : List Char → Option Nat
  | [] => some n
  | c :: cs => (value? c).bind fun d => digitsFrom base value? (base * n + d) cs

/-- The number written by a list of digits that is not empty. Leading zeros are allowed. -/
def decimal? : List Char → Option Nat
  | [] => none
  | cs => digitsFrom 10 digit? 0 cs

/-- The digits of a word, without the plus sign that may stand before them. -/
def unsigned : List Char → List Char
  | '+' :: cs => cs
  | cs => cs

/-- The 64-bit word written in decimal: digits of ASCII, a plus sign before them at most. -/
def word? (s : String) : Option Nat := (decimal? (unsigned s.toList)).filter (· < wordLimit)

/-- A text without the sign that may stand before it. -/
def afterSign : List Char → List Char
  | '+' :: cs | '-' :: cs => cs
  | cs => cs

/-- Whether an exponent, if there is one, is written out. -/
def isExponent : List Char → Bool
  | [] => true
  | c :: cs => (c = 'e' || c = 'E') && afterSign cs ≠ [] && (afterSign cs).all Char.isDigit

/-- Whether a text writes a real number, infinity or no number at all: a sign at most, digits with a point at most, and an exponent
at most. -/
def isReal (s : List Char) : Bool :=
  let cs := afterSign s
  let whole := cs.takeWhile Char.isDigit
  let (fraction, rest) :=
    match cs.dropWhile Char.isDigit with
    | '.' :: more => more.span Char.isDigit
    | more => ([], more)
  String.ofList (cs.map Char.toLower) ∈ ["inf", "infinity", "nan"] || (whole ++ fraction ≠ [] && isExponent rest)

/-- The truth value written as `true` or `false`. -/
def bool? (s : String) : Option Bool :=
  if s = "true" then some true else if s = "false" then some false else none

end Lineage.Text
