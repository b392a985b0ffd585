import Lineage.Context
import Lineage.Fixture.File
import Lineage.Settings
import Lineage.Source.Catalog
import Lineage.Token.Registry

/-!
# Fixtures

A fixture is a catalog with names: the tokens of a file under their keys, and the edges of the file as listed parents, as auxiliary
providers (one for each kind of a child), or as hooks.
-/

namespace Lineage

/-- Named tokens, the kinds they may have, and the sources of their parents. -/
structure Fixture where
  registry : Token.Registry
  tokens : Table String Token
  sources : Catalog

namespace Fixture

/-- Why a fixture cannot be used. -/
inductive Problem where
  /-- a file cannot be read -/
  | unreadable (path cause : String)
  /-- a text is not in the format of fixtures -/
  | notFixture
  /-- two tokens have one key -/
  | duplicateKey (key : String)
  /-- an edge begins or ends at a key without a token -/
  | danglingEdge (key : String)
  /-- a reference is neither a key nor a written token -/
  | unknownToken (reference : String)
  /-- an operation of the library failed -/
  | error (e : Error)
  deriving DecidableEq, Repr

/-- The wording of a problem. -/
def Problem.message : Problem → String
  | .unreadable path cause => "cannot read fixture " ++ path ++ ": " ++ cause
  | .notFixture => formatErrorText
  | .duplicateKey key => "duplicate token key '" ++ key ++ "'"
  | .danglingEdge key => "edge references unknown token '" ++ key ++ "'"
  | .unknownToken reference => "unknown token '" ++ reference ++ "'"
  | .error e => e.message

/-- The registry of the built-in kinds and the given tags. -/
def registryOf (tags : List String) : Except Problem Token.Registry :=
  (tags.foldlM (fun (r : Token.Registry) tag => r.register (.triple tag)) Token.Registry.builtin).mapError .error

/-- Adds a token under its key. A token of an unknown kind is refused before a key that is taken. -/
def addEntry (registry : Token.Registry) (tokens : Table String Token) (e : Entry) :
    Except Problem (Table String Token) := do
  let t ← (registry.build e.tag e.identity).mapError .error
  if tokens.contains e.key then .error (.duplicateKey e.key) else .ok (tokens.set e.key t)

/-- The token at one end of an edge. -/
def endOf (tokens : Table String Token) (key : String) : Except Problem Token :=
  match tokens.find? key with
  | some t => .ok t
  | none => .error (.danglingEdge key)

/-- An edge between tokens. -/
structure Link where
  child : Token
  parent : Token
  category : Category
  deriving DecidableEq, Repr

/-- The tokens at the ends of an edge. -/
def linkOf (tokens : Table String Token) (e : Edge) : Except Problem Link := do
  let child ← endOf tokens e.child
  let parent ← endOf tokens e.parent
  pure ⟨child, parent, e.category⟩

/-- What is made of the edges of a file: what the native source lists, what the auxiliary provider for each kind of a child lists, and
what is hooked. -/
structure Links where
  native : Listing
  auxiliary : Table Kind Listing
  hooks : Hooks

namespace Links

/-- No edges. -/
def empty : Links := ⟨Listing.empty, Table.empty, Hooks.empty⟩

/-- What the auxiliary provider for a kind lists. -/
def listing (l : Links) (k : Kind) : Listing := (l.auxiliary.find? k).getD Listing.empty

/-- The links with one more. -/
def add (l : Links) (x : Link) : Links :=
  match x.category with
  | .native => { l with native := l.native.add x.child x.parent }
  | .auxiliary => { l with auxiliary := l.auxiliary.set x.child.kind ((l.listing x.child.kind).add x.child x.parent) }
  | .hooking => { l with hooks := l.hooks.add x.child x.parent }

end Links

/-- The links with one more edge. -/
def addEdge (tokens : Table String Token) (l : Links) (e : Edge) : Except Problem Links := do
  let x ← linkOf tokens e
  pure (l.add x)

/-- The name of the auxiliary provider for a kind. -/
def providerName (k : Kind) : String := k.tag

/-- The catalog with the auxiliary provider for one more kind. -/
def addProvider (c : Catalog) (p : Kind × Listing) : Except Error Catalog := do
  let registry ← c.registry.register p.1 (providerName p.1)
  pure { c with named := c.named.set (providerName p.1) (Source.ofListing p.2), registry }

/-- The catalog that knows some links, with auxiliary providers that are registered one after the other. -/
def catalogOf (l : Links) (providers : List (Kind × Listing)) : Except Error Catalog :=
  providers.foldlM addProvider { Catalog.empty with native := Source.ofListing l.native, hooks := l.hooks }

/-- An order in which the auxiliary providers are registered. Nothing but the order is up to it. -/
structure Arrangement where
  arrange : List (Kind × Listing) → List (Kind × Listing)
  perm (ps : List (Kind × Listing)) : (arrange ps).Perm ps

/-- The order in which the kinds of the children come in the file. -/
def Arrangement.inFileOrder : Arrangement := ⟨id, List.Perm.refl⟩

/-- The fixture of a file, with auxiliary providers in some order: its kinds, then its tokens, then its edges. -/
def ofFileBy (order : Arrangement) (file : File) : Except Problem Fixture := do
  let registry ← registryOf file.kinds
  let tokens ← file.tokens.foldlM (addEntry registry) Table.empty
  let links ← file.edges.foldlM (addEdge tokens) Links.empty
  let sources ← (catalogOf links (order.arrange links.auxiliary.entries)).mapError .error
  pure ⟨registry, tokens, sources⟩

/-- The fixture of a file. -/
def ofFile (file : File) : Except Problem Fixture := ofFileBy .inFileOrder file

/-- The fixture that a text describes. -/
def ofText (s : String) : Except Problem Fixture :=
  match File.ofText? s with
  | some file => ofFile file
  | none => .error .notFixture

/-- The fixture in a file. -/
def load (read : String → Except String String) (path : String) : Except Problem Fixture := do
  let text ← (read path).mapError (.unreadable path)
  ofText text

/-- The token that a reference names: the one under that key, or else the one that it writes. -/
def token (f : Fixture) (reference : String) : Except Problem Token :=
  match f.tokens.find? reference with
  | some t => .ok t
  | none =>
    if Token.Wire.kindKey.toList.isPrefixOf reference.toList then (f.registry.deserialize reference).mapError .error
    else .error (.unknownToken reference)

/-- How a token is shown: by the first key under which it stands, or else as in messages. -/
def label (f : Fixture) (t : Token) : String :=
  match f.tokens.entries.find? (·.2.same t) with
  | some (key, _) => key
  | none => t.display

/-- A context that asks the sources of a fixture. -/
def context (f : Fixture) (settings : Settings) : Context Catalog := Context.new f.sources settings.cache

end Fixture
end Lineage
