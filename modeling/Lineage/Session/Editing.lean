import Lineage.Session.Command
import Lineage.Source.Catalog

/-!
# Editing a catalog during a session

In a session whose sources are a catalog, the catalog can be changed between commands. A step is an edit or a command, and it is shown
with the questions that were asked in it.
-/

namespace Lineage.Session

/-- A change of a catalog, or a look at it. -/
inductive Edit where
  | addNative (child parent : Token)
  | putNative (child : Token) (parents : List Token)
  /-- lets the native source fail at a token, or not fail there -/
  | failNative (t : Token) (text : Option String)
  | register (k : Kind) (name : String)
  | unregister (k : Kind) (name : String)
  | providersFor (k : Kind)
  | unregisterAll
  | addAuxiliary (name : String) (child parent : Token)
  | failAuxiliary (name : String) (t : Token) (text : Option String)
  /-- asks the registry directly -/
  | askRegistry (t : Token)
  | hook (child parent : Token)
  | unhook (child : Token)
  | unhookAll
  | countHooks
  | debugRegistry
  deriving DecidableEq, Repr

/-- The catalog of a session. -/
def catalog : Doing Catalog Catalog := do pure (← Act.get).context.sources

/-- Changes the catalog of a session. -/
def editCatalog (f : Catalog → Catalog) : Doing Catalog Unit :=
  .modify fun s => { s with context := { s.context with sources := f s.context.sources } }

/-- The provider with a name. -/
def provider (name : String) : Doing Catalog Source := do
  match (← catalog).named.find? name with
  | some s => pure s
  | none => .fail (.missing (.provider name))

/-- The listing of a source. -/
def listing (s : Source) : Doing Catalog Listing :=
  match s.listing? with
  | some l => pure l
  | none => .fail (.missing .listing)

/-- Changes the listing of the native source. -/
def editNative (f : Listing → Listing) : Doing Catalog Shown := do
  let source := (← catalog).native
  let l ← listing source
  editCatalog fun c => { c with native := source.withListing (f l) }
  pure (.children (f l).size)

/-- Changes the provider with a name. -/
def putProvider (name : String) (s : Source) : Doing Catalog Unit :=
  editCatalog fun c => { c with named := c.named.set name s }

/-- Does an edit. -/
def Edit.run : Edit → Doing Catalog Shown
  | .addNative child parent => editNative (·.add child parent)
  | .putNative child parents => editNative (·.put child parents)
  | .failNative t text => do
    editCatalog fun c => { c with native := c.native.withFailure t text }
    pure .nothing
  | .register k name => do
    let _ ← provider name
    let registry ← (Act.ofExcept ((← catalog).registry.register k name)).mapError .error
    editCatalog fun c => { c with registry }
    pure .nothing
  | .unregister k name => do
    let _ ← provider name
    let (found, registry) := (← catalog).registry.unregister k name
    editCatalog fun c => { c with registry }
    pure (.flag found)
  | .providersFor k => do pure (.names ((← catalog).registry.providersFor k))
  | .unregisterAll => do
    editCatalog fun c => { c with registry := Auxiliary.empty }
    pure .nothing
  | .addAuxiliary name child parent => do
    let source ← provider name
    let l ← listing source
    putProvider name (source.withListing (l.add child parent))
    pure .nothing
  | .failAuxiliary name t text => do
    let source ← provider name
    putProvider name (source.withFailure t text)
    pure .nothing
  | .askRegistry t => do
    match (← catalog).askAuxiliary t with
    | (reply, c) =>
      editCatalog fun _ => c
      match reply with
      | .ok a => pure (.answer a)
      | .error text => .fail (.source text)
  | .hook child parent => do
    editCatalog fun c => { c with hooks := c.hooks.add child parent }
    pure (.number (← catalog).hooks.size)
  | .unhook child => do
    let (removed, hooks) := (← catalog).hooks.remove child
    editCatalog fun c => { c with hooks }
    pure (.tokens removed)
  | .unhookAll => do
    editCatalog fun c => { c with hooks := Hooks.empty }
    pure (.flag (← catalog).hooks.isEmpty)
  | .countHooks => do pure (.children (← catalog).hooks.size)
  | .debugRegistry => do pure (.text (← catalog).registry.debug)

/-- One step of a session with a catalog. -/
inductive Step where
  | command (c : Command)
  | edit (e : Edit)
  deriving DecidableEq, Repr

/-- Does a step. -/
def Step.run : Step → Doing Catalog Shown
  | .command c => c.run
  | .edit e => e.run

/-- Does a step and tells which questions were asked in it. -/
def Step.observe (step : Step) (s : Session Catalog) : (Except Failure Shown × List Query) × Session Catalog :=
  let clear (s : Session Catalog) : Session Catalog :=
    { s with context := { s.context with sources := { s.context.sources with queries := #[] } } }
  match step.run (clear s) with
  | (result, s') => ((result, s'.context.sources.queries.toList), clear s')

/-- Registers auxiliary providers for kinds, all of which have to be in the catalog. -/
def registerAll : List (Kind × String) → Doing Catalog Unit
  | [] => pure ()
  | (k, name) :: rest => do
    let _ ← Edit.run (.register k name)
    registerAll rest

end Lineage.Session
