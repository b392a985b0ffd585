import Lineage.Error

/-!
# The registry of kinds

A written token names its kind by a tag. The registry has one codec for each tag it knows, and the codec rebuilds the token from its
identity. Writing asks for the tag alone, so a token of a custom kind whose tag belongs to another codec is written all the same, and
comes back as a token of that codec's kind.
-/

namespace Lineage.Token

/-- How the token of a registered tag is rebuilt from an identity. -/
inductive Codec where
  /-- the built-in elements: the identity as it is -/
  | element
  /-- the virtual elements: the type is fixed -/
  | virtualElement
  /-- the elements of the log viewer: only the id is used -/
  | logElement
  /-- a custom kind: the identity as it is -/
  | triple (tag : String)
  /-- a custom kind that takes no empty id -/
  | named (tag : String)
  deriving DecidableEq, Repr

namespace Codec

/-- The tag that a codec answers for. -/
def tag : Codec → String
  | .element => Kind.element.tag
  | .virtualElement => Kind.virtualElement.tag
  | .logElement => Kind.logElement.tag
  | .triple tag | .named tag => tag

/-- The token that a codec makes of an identity. -/
def build : Codec → Identity → Except Error Token
  | .element, i => .ok ⟨.element, i⟩
  | .virtualElement, i => .ok (Token.virtualElement i.source i.id)
  | .logElement, i => .ok (Token.logElement i.id)
  | .triple tag, i => .ok ⟨.custom tag, i⟩
  | .named tag, i => if i.id = "" then .error (.malformed (.rejected "id is empty")) else .ok ⟨.custom tag, i⟩

end Codec

/-- One codec for each registered tag. -/
structure Registry where
  codecs : Table String Codec

namespace Registry

/-- The registry without any kind. -/
def empty : Registry := ⟨Table.empty⟩

/-- The registry of the three built-in kinds. -/
def builtin : Registry :=
  ⟨[Codec.element, .virtualElement, .logElement].foldl (fun t c => t.set c.tag c) Table.empty⟩

/-- Whether a tag is registered. -/
def contains (r : Registry) (tag : String) : Bool := r.codecs.contains tag

/-- Registers a codec for its tag, unless the tag is taken. -/
def register (r : Registry) (c : Codec) : Except Error Registry :=
  if r.contains c.tag then .error (.duplicateKind c.tag) else .ok ⟨r.codecs.set c.tag c⟩

/-- The token that the codec of a tag makes of an identity. -/
def build (r : Registry) (tag : String) (i : Identity) : Except Error Token :=
  match r.codecs.find? tag with
  | none => .error (.unknownKind tag)
  | some c => c.build i

/-- A token, written, if the tag of its kind is registered. -/
def serialize (r : Registry) (t : Token) : Except Error String :=
  if r.contains t.kind.tag then .ok t.serialize else .error (.unknownKind t.kind.tag)

/-- The token that a text writes. The envelope is read first, then the payload, and the tag is looked up last. -/
def deserialize (r : Registry) (text : String) : Except Error Token := do
  let (tag, payload) ← (Wire.readEnvelope text).mapError .malformed
  let identity ← (Wire.readPayload payload).mapError .malformed
  r.build tag identity

/-- The registered tags in the order of their code points. -/
def tags (r : Registry) : List String := r.codecs.keys.mergeSort (fun a b => decide (a ≤ b))

/-- The registry for diagnosis: its tags. -/
def debug (r : Registry) : String :=
  Text.record "TokenRegistry" [("kinds", Text.bracketed (r.tags.map Text.quote))]

end Registry
end Lineage.Token
