import Lineage.Error
import Lineage.Toml.Document
import Lineage.Toml.Record

/-!
# Fixture files

A fixture file lists kinds, tokens under keys, and edges between keys. The names of the categories in it are those of messages.
-/

namespace Lineage

/-- The category with a name. -/
def Category.ofName? : String → Option Category
  | "native" => some .native
  | "auxiliary" => some .auxiliary
  | "hooking" => some .hooking
  | _ => none

namespace Fixture

/-- A token of a file: the tag of its kind and its identity, under a key. -/
structure Entry where
  key : String
  tag : String
  identity : Identity
  deriving DecidableEq, Repr

/-- An edge of a file, from a child to a parent that both stand under keys. -/
structure Edge where
  child : String
  parent : String
  category : Category
  deriving DecidableEq, Repr

/-- A file, before anything in it is looked up. -/
structure File where
  kinds : List String
  tokens : List Entry
  edges : List Edge
  deriving DecidableEq, Repr

namespace File

open Toml (Value)

/-- The token that a value describes. -/
def entryOf? (v : Value) : Option Entry := do
  let field ← v.fields? ["key", "kind", "type", "source", "id"]
  let key ← Value.required Value.text? (field "key")
  let tag ← Value.withDefault Kind.element.tag Value.text? (field "kind")
  let type ← Value.withDefault "" Value.text? (field "type")
  let source ← Value.withDefault "" Value.text? (field "source")
  let id ← Value.required Value.text? (field "id")
  pure ⟨key, tag, ⟨type, source, id⟩⟩

/-- The edge that a value describes. -/
def edgeOf? (v : Value) : Option Edge := do
  let field ← v.fields? ["child", "parent", "category"]
  let child ← Value.required Value.text? (field "child")
  let parent ← Value.required Value.text? (field "parent")
  let category ← Value.withDefault .native (Value.choice? Category.ofName?) (field "category")
  pure ⟨child, parent, category⟩

/-- The file that a document describes. -/
def ofValue? (v : Value) : Option File := do
  let field ← v.fields? ["kinds", "token", "edge"]
  let kinds ← Value.withDefault [] (Value.listOf? Value.text?) (field "kinds")
  let tokens ← Value.withDefault [] (Value.listOf? entryOf?) (field "token")
  let edges ← Value.withDefault [] (Value.listOf? edgeOf?) (field "edge")
  pure ⟨kinds, tokens, edges⟩

/-- The file that a text describes. -/
def ofText? (s : String) : Option File := (Toml.document? s).bind ofValue?

end File
end Fixture
end Lineage
