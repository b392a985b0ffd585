import Lineage.Text.Number

/-!
# Hexadecimal digits
-/

namespace Lineage.Text

/-- The value of a hexadecimal digit of either case. -/
def hexDigit? (c : Char) : Option Nat :=
  if 'a' ≤ c ∧ c ≤ 'f' then some (c.toNat - 'a'.toNat + 10)
  else if 'A' ≤ c ∧ c ≤ 'F' then some (c.toNat - 'A'.toNat + 10)
  else digit? c

/-- The number that hexadecimal digits write. -/
def hex? (cs : List Char) : Option Nat := digitsFrom 16 hexDigit? 0 cs

/-- The character with a code point, if it is one: surrogates and numbers above the last character are not. -/
def scalar? (n : Nat) : Option Char := if h : n.isValidChar then some (Char.ofNatAux n h) else none

/-- The last digits of a number, as many as asked for, in lower case. -/
def hexOf (width n : Nat) : List Char :=
  (List.range width).reverse.map fun i => Nat.digitChar ((n >>> (4 * i)) % 16)

end Lineage.Text
