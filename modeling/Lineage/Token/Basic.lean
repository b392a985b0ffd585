import Lineage.Text.Quoted

/-!
# Tokens

A token names an object of the system: a page, a user, a row, the root of a provider. What it names is its identity, the triple of
type, source and id. Its kind only says how the token is rebuilt from its written form, so two tokens of different kinds with one
identity name the same object (`Token.same`), and every table of the library is keyed by identity.
-/

namespace Lineage

/-- What a token names: an id, the source it comes from and its type there. -/
structure Identity where
  type : String
  source : String
  id : String
  deriving DecidableEq, Hashable, Repr

/-- How a token is rebuilt from its written form. -/
inductive Kind where
  /-- any triple -/
  | element
  /-- an element of a virtual tree: its type is fixed -/
  | virtualElement
  /-- an element of the log viewer: type and source are empty -/
  | logElement
  /-- a kind that is registered from outside -/
  | custom (tag : String)
  deriving DecidableEq, Repr

/-- The tag that is written for a kind. A custom kind may have the tag of a built-in one and is another kind all the same. -/
def Kind.tag : Kind → String
  | .element => "element"
  | .virtualElement => "virtual_element"
  | .logElement => "log_element"
  | .custom tag => tag

/-- The type of every virtual element. -/
def virtualElementType : String := "virtual_element"

/-- An identity under a kind. -/
structure Token where
  kind : Kind
  identity : Identity
  deriving DecidableEq, Repr

namespace Token

/-- The token of an element. -/
def element (type source id : String) : Token := ⟨.element, ⟨type, source, id⟩⟩

/-- The token of a virtual element. -/
def virtualElement (source id : String) : Token := ⟨.virtualElement, ⟨virtualElementType, source, id⟩⟩

/-- The token of an element of the log viewer. -/
def logElement (id : String) : Token := ⟨.logElement, ⟨"", "", id⟩⟩

/-- A token of the custom kind with the given tag. -/
def custom (tag type source id : String) : Token := ⟨.custom tag, ⟨type, source, id⟩⟩

/-- Whether two tokens name the same object, whatever their kinds. -/
def same (a b : Token) : Bool := a.identity = b.identity

/-- A code that is equal for tokens with one identity. -/
def hashCode (t : Token) : UInt64 := hash t.identity

/-- Whether the identity has the shape that the kind requires. -/
def valid (t : Token) : Bool :=
  match t.kind with
  | .virtualElement => t.identity.type = virtualElementType
  | .logElement => t.identity.type = "" && t.identity.source = ""
  | .element | .custom _ => true

/-- The token as messages and logs name it. -/
def display (t : Token) : String :=
  "Source = " ++ t.identity.source ++ ", Type = " ++ t.identity.type ++ ", Id = " ++ t.identity.id

/-- The token with all its parts, for diagnosis. -/
def debug (t : Token) : String :=
  Text.record "EntityToken" [("kind", Text.quote t.kind.tag), ("type", Text.quote t.identity.type),
    ("source", Text.quote t.identity.source), ("id", Text.quote t.identity.id)]

/-- The tokens without those that name the same object as one before them. -/
def distinct (ts : List Token) : List Token :=
  ts.foldl (fun seen t => if seen.any (·.same t) then seen else seen ++ [t]) []

theorem same_iff {a b : Token} : a.same b = true ↔ a.identity = b.identity := by simp [same]

@[simp] theorem same_self (a : Token) : a.same a = true := by simp [same]

theorem same_comm (a b : Token) : a.same b = b.same a := by simp [same, eq_comm]

/-- Tokens that name the same object have one code. -/
theorem hashCode_eq_of_same {a b : Token} (h : a.same b = true) : a.hashCode = b.hashCode := by
  rw [hashCode, hashCode, same_iff.1 h]

end Token
end Lineage
