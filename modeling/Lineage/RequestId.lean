import Lineage.Text.JsonString

/-!
# Request ids

The two halves of a refresh log one id, which the caller hands over or which is made up. A made-up id begins with the time, so that
ids sort by age.
-/

namespace Lineage.RequestId

/-- Splits digits into groups of the given sizes. -/
def groups (cs : List Char) : List Nat → List (List Char)
  | [] => []
  | n :: ns => cs.take n :: groups (cs.drop n) ns

/-- An id made of the time in milliseconds and of a random number, of which 74 bits are used: hexadecimal digits in five groups,
marked as an id of version 7. -/
def ofTime (millis random : Nat) : String :=
  let version := 0x7000 + random % 0x1000
  let variantBits := (2 <<< 62) + (random >>> 12) % (1 <<< 62)
  let digits := Text.hexOf 12 millis ++ Text.hexOf 4 version ++ Text.hexOf 16 variantBits
  "-".intercalate ((groups digits [8, 4, 4, 4, 12]).map String.ofList)

/-- An id in its JSON form, which is that of its text. -/
def toJson (id : String) : String := Text.JsonString.encode id

/-- The id that a JSON text writes. -/
def ofJson? (json : String) : Option String := Text.JsonString.decode? json

end Lineage.RequestId
