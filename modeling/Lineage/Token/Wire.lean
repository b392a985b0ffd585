import Lineage.Token.Basic
import Lineage.Token.Pairs

/-!
# The written form of a token

The identity of a token is written as three pairs, its payload. The payload is then the value of a second run of pairs, the
envelope, which names the kind as well.
-/

namespace Lineage.Token.Wire

/-- The key of the type. -/
def typeKey : String := "_EntityToken_Type_"

/-- The key of the source. -/
def sourceKey : String := "_EntityToken_Source_"

/-- The key of the id. -/
def idKey : String := "_EntityToken_Id_"

/-- The key of the kind's tag. -/
def kindKey : String := "_EntityTokenType_"

/-- The key of the payload. -/
def payloadKey : String := "_EntityToken_"

/-- An identity, written. -/
def payload (i : Identity) : String :=
  Pairs.write (Pairs.write (Pairs.write "" typeKey i.type) sourceKey i.source) idKey i.id

/-- A tag and a payload, written. -/
def envelope (tag payload : String) : String := Pairs.write (Pairs.write "" kindKey tag) payloadKey payload

/-- The value of a key that must be there. -/
def require (t : Table String String) (key : String) (missing : Malformed) : Except Malformed String :=
  match t.find? key with
  | none => .error missing
  | some value => .ok value

/-- The identity that a payload writes; of several missing keys the first of type, source and id is reported. -/
def readPayload (text : String) : Except Malformed Identity := do
  let t ← Pairs.parse text
  let type ← require t typeKey (.missingKey typeKey)
  let source ← require t sourceKey (.missingKey sourceKey)
  let id ← require t idKey (.missingKey idKey)
  pure ⟨type, source, id⟩

/-- The tag and the payload that an envelope writes. -/
def readEnvelope (text : String) : Except Malformed (String × String) := do
  let t ← Pairs.parse text
  let tag ← require t kindKey .notTagged
  let payload ← require t payloadKey .noPayload
  pure (tag, payload)

end Lineage.Token.Wire

namespace Lineage.Token

/-- The payload of a token. -/
def payload (t : Token) : String := Wire.payload t.identity

/-- A token, written with the tag of its kind. -/
def serialize (t : Token) : String := Wire.envelope t.kind.tag t.payload

end Lineage.Token
