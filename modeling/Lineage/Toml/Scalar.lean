import Lineage.Toml.Text
import Lineage.Toml.Value

/-!
# Truth values, numbers, dates and times

An integer is one of 64 bits with a sign. A number with a fraction or an exponent is read unless it is too large to be told from
infinity. Dates and times are checked against the calendar, and a minute may have a sixty-first second.
-/

namespace Lineage.Toml.Reader

/-! ## Numbers -/

/-- The digits that continue a number, with single underscores between them dropped. -/
def moreDigits (p : Char → Bool) : List Char → List Char × List Char
  | [] => ([], [])
  | '_' :: c :: cs => if p c then (moreDigits p cs).map (c :: ·) id else ([], '_' :: c :: cs)
  | c :: cs => if p c then (moreDigits p cs).map (c :: ·) id else ([], c :: cs)

/-- Digits of a class, at least one, with single underscores between them dropped. -/
def digits (p : Char → Bool) : Reader (List Char) := do
  let c ← one p
  fun cs => some ((moreDigits p cs).map (c :: ·) id)

/-- A sign; whether it is a minus. -/
def sign : Reader Bool := do
  match ← optional (one fun c => c = '+' || c = '-') with
  | some c => pure (c = '-')
  | none => pure false

/-- The digits of a whole number: a zero stands alone. -/
def wholeDigits : Reader (List Char)
  | '0' :: cs => some (['0'], cs)
  | cs => digits isDigit cs

/-- The number that decimal digits write. -/
def decimalOf (cs : List Char) : Reader Nat := ofOption (Text.decimal? cs)

/-- The first number too large for an integer. -/
def integerLimit : Nat := 1 <<< 63

/-- A whole number in decimal. -/
def decimalInteger : Reader Int := do
  let negative ← sign
  let n ← decimalOf (← wholeDigits)
  if negative then
    if n ≤ integerLimit then pure (-(n : Int)) else fail
  else
    if n < integerLimit then pure n else fail

/-- A whole number in another base, which the letter after a zero names. -/
def basedInteger (letter : Char) (base : Nat) : Reader Int := do
  char '0'
  char letter
  let isDigit (c : Char) : Bool := (Text.hexDigit? c).any (· < base)
  let n ← ofOption (Text.digitsFrom base Text.hexDigit? 0 (← digits isDigit))
  if n < integerLimit then pure n else fail

/-- A whole number. -/
def integer : Reader Int := basedInteger 'x' 16 <|> basedInteger 'o' 8 <|> basedInteger 'b' 2 <|> decimalInteger

/-- An exponent. -/
def exponent : Reader Int := do
  discard (one fun c => c = 'e' || c = 'E')
  let negative ← sign
  let n ← decimalOf (← digits isDigit)
  pure (if negative then -(n : Int) else n)

/-- The digits of a fraction. -/
def fraction : Reader (List Char) := do
  char '.'
  digits isDigit

/-- The least number that rounds to infinity in the arithmetic of 64 bits. -/
def overflow : Nat := (1 <<< 1024) - (1 <<< 970)

/-- The number of digits of the largest finite number. -/
def finiteDigits : Nat := 309

/-- Whether a number times a power of ten rounds to infinity. -/
def overflows (n : Nat) (e : Int) : Bool :=
  let width : Int := (Nat.toDigits 10 n).length
  if n = 0 then false
  else if width + e < finiteDigits then false
  else if finiteDigits < width + e then true
  else if 0 ≤ e then overflow ≤ n * Nat.pow 10 e.toNat
  else overflow * Nat.pow 10 (-e).toNat ≤ n

/-- A number with a fraction or an exponent. -/
def finiteFloat : Reader Unit := do
  let negative ← sign
  let whole ← wholeDigits
  let fractional ← optional fraction
  let power ← optional exponent
  if fractional.isNone && power.isNone then fail
  let places := fractional.getD []
  let n ← decimalOf (whole ++ places)
  if !negative && overflows n (power.getD 0 - places.length) then fail

/-- What is not a finite number: infinity, or not a number at all. -/
def specialFloat : Reader Unit := do
  discard sign
  word ['i', 'n', 'f'] <|> word ['n', 'a', 'n']

/-- A number that is not whole. -/
def float : Reader Unit := finiteFloat <|> specialFloat

/-! ## Dates and times -/

/-- A number of exactly so many digits. -/
def fixed : Nat → Nat → Reader Nat
  | 0, n => pure n
  | k + 1, n => do
    let c ← one isDigit
    fixed k (10 * n + (c.toNat - '0'.toNat))

/-- A number of two digits within bounds. -/
def bounded (low high : Nat) : Reader Unit := do
  let n ← fixed 2 0
  if low ≤ n && n ≤ high then pure () else fail

/-- Whether a year has a leap day. -/
def isLeap (year : Nat) : Bool := year % 4 = 0 && (year % 100 ≠ 0 || year % 400 = 0)

/-- The number of days of a month. -/
def daysIn (year : Nat) : Nat → Nat
  | 2 => if isLeap year then 29 else 28
  | 4 | 6 | 9 | 11 => 30
  | _ => 31

/-- A date. -/
def date : Reader Unit := do
  let year ← fixed 4 0
  char '-'
  let month ← fixed 2 0
  if month < 1 || 12 < month then fail
  char '-'
  bounded 1 (daysIn year month)

/-- A time of day. -/
def time : Reader Unit := do
  bounded 0 23
  char ':'
  bounded 0 59
  char ':'
  bounded 0 60
  discard (optional do
    char '.'
    discard (one isDigit)
    span isDigit)

/-- The distance of a time from universal time. -/
def offset : Reader Unit :=
  discard (one fun c => c = 'Z' || c = 'z') <|> (do
    discard (one fun c => c = '+' || c = '-')
    bounded 0 23
    char ':'
    bounded 0 59)

/-- A date with a time after it or without, or a time. -/
def moment : Reader Unit :=
  (do
    date
    discard (optional do
      discard (one fun c => c = 'T' || c = 't' || c = ' ')
      time
      optional offset)) <|> time

/-! ## All values that have no parts -/

/-- A truth value. -/
def flag : Reader Bool :=
  (do word ['t', 'r', 'u', 'e']; pure true) <|> (do word ['f', 'a', 'l', 's', 'e']; pure false)

/-- A value without parts. -/
def scalar : Reader Value :=
  (do pure (.text (← text))) <|> (do pure (.flag (← flag))) <|> (do moment; pure .moment) <|>
    (do float; pure .float) <|> (do pure (.integer (← integer)))

end Lineage.Toml.Reader
