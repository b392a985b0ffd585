import Lineage.Source.Auxiliary
import Lineage.Source.Hooks
import Lineage.Source.Listing
import Lineage.Text.Number

/-!
# Catalogs

A catalog holds sources as data: a native one, auxiliary ones by name with their registrations, and hooks. It keeps the questions that
were asked of it, so that one can see who was asked what. It is one of the states that a graph can be built against.
-/

namespace Lineage

/-- How a source finds parents when it does not fail. -/
inductive Source.Rule where
  /-- it has a listing -/
  | listed (listing : Listing)
  /-- every token has one parent, the one numbered next: its ancestors never end -/
  | counting
  /-- it has no opinion on any token -/
  | silent

/-- A source as data: a rule, and the tokens at which it fails, with the texts of the failures. -/
structure Source where
  rule : Source.Rule
  failures : Table Identity String

namespace Source

/-- The source with an empty listing. -/
def empty : Source := ⟨.listed Listing.empty, Table.empty⟩

instance : Inhabited Source := ⟨empty⟩

/-- The source with the given listing. -/
def ofListing (l : Listing) : Source := ⟨.listed l, Table.empty⟩

/-- The number after the one that an id writes, zero if it writes none. -/
def successor (id : String) : String :=
  match Text.word? id with
  | some n => toString (n + 1)
  | none => "0"

/-- What the rule of a source says about a token. -/
def Rule.answer : Rule → Token → Answer
  | .listed l, t => l.answer t
  | .counting, t => some [Token.element "t" "s" (successor t.identity.id)]
  | .silent, _ => none

/-- The reply of a source: failures come before its rule. -/
def reply (s : Source) (t : Token) : Reply :=
  match s.failures.find? t.identity with
  | some text => .error text
  | none => .ok (s.rule.answer t)

/-- The listing of a source that has one. -/
def listing? (s : Source) : Option Listing :=
  match s.rule with
  | .listed l => some l
  | .counting | .silent => none

/-- The source with another listing. -/
def withListing (s : Source) (l : Listing) : Source := { s with rule := .listed l }

/-- The source that fails at a token with a text, or does not fail there. -/
def withFailure (s : Source) (t : Token) : Option String → Source
  | some text => { s with failures := s.failures.set t.identity text }
  | none => { s with failures := s.failures.erase t.identity }

end Source

/-- Who was asked. -/
inductive Asked where
  | native
  | auxiliary (name : String)
  | hooking
  deriving DecidableEq, Repr

/-- A question: who was asked about which token. -/
structure Query where
  asked : Asked
  token : Token
  deriving DecidableEq, Repr

/-- Sources as data, with the questions asked so far. -/
structure Catalog where
  native : Source
  /-- auxiliary providers by name -/
  named : Table String Source
  registry : Auxiliary
  hooks : Hooks
  /-- a source that is asked in place of the hooks -/
  overlay : Option Source
  queries : Array Query

namespace Catalog

/-- The catalog that knows nothing. -/
def empty : Catalog := ⟨Source.empty, Table.empty, Auxiliary.empty, Hooks.empty, none, #[]⟩

instance : Inhabited Catalog := ⟨empty⟩

/-- The catalog after one more question. -/
def note (c : Catalog) (who : Asked) (t : Token) : Catalog := { c with queries := c.queries.push ⟨who, t⟩ }

/-- The reply of the auxiliary provider with a name; a name without a provider has no opinion. -/
def askNamed (name : String) (t : Token) (c : Catalog) : Reply × Catalog :=
  match c.named.find? name with
  | some s => (s.reply t, c.note (.auxiliary name) t)
  | none => (.ok none, c.note (.auxiliary name) t)

/-- The reply of the providers that are registered for the kind of a token. -/
def askAuxiliary (t : Token) (c : Catalog) : Reply × Catalog :=
  Auxiliary.consult askNamed t (c.registry.providersFor t.kind) c

/-- What is hooked on, or what is asked in place of the hooks. -/
def hooked (c : Catalog) (t : Token) : Reply :=
  match c.overlay with
  | some s => s.reply t
  | none => .ok (c.hooks.answer t)

/-- The reply of one category. -/
def ask : Category → Token → Catalog → Reply × Catalog
  | .native, t, c => (c.native.reply t, c.note .native t)
  | .auxiliary, t, c => askAuxiliary t c
  | .hooking, t, c => (c.hooked t, c.note .hooking t)

instance : Sources Catalog := ⟨ask⟩

end Catalog
end Lineage
