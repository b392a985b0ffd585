import Lineage.Graph.Growth
import Lineage.Graph.Paths
import Lineage.Refresher

/-!
# Sessions

A session is a context in use: somebody asks, graphs and refreshers are kept under names, and every command is done on what the
commands before it left. It does not matter what the sources are.
-/

namespace Lineage

/-- Who asks: always the same user (nobody for an anonymous caller), or whoever is logged in at the time. -/
inductive Caller where
  | fixed (user : Scope)
  | loggedIn
  deriving DecidableEq, Repr

/-- Whose cached answers a caller uses, given who is logged in. -/
def Caller.scope (login : Scope) : Caller → Scope
  | .fixed user => user
  | .loggedIn => login

/-- The name of a caller; that of nobody is empty. -/
def nameOf (user : Scope) : String := user.getD ""

/-- A context with its caller, and what was made in it. A graph knows the scope it was begun under, a refresher its caller. -/
structure Session (σ : Type) where
  context : Context σ
  caller : Caller
  /-- who is logged in -/
  login : Scope
  graphs : Table String LevelGraph
  explored : Table String PathGraph
  refreshers : Table String (Caller × Refresher)

namespace Session

/-- What a command needs and does not find. -/
inductive Missing where
  | graph (name : String)
  | refresher (name : String)
  | provider (name : String)
  | node
  | listing
  deriving DecidableEq, Repr

/-- The wording of what is missing. -/
def Missing.message : Missing → String
  | .graph name => "no graph '" ++ name ++ "'"
  | .refresher name => "no refresher '" ++ name ++ "'"
  | .provider name => "no auxiliary provider '" ++ name ++ "'"
  | .node => "token not in graph"
  | .listing => "source has no table"

/-- Why a command fails. -/
inductive Failure where
  | error (e : Error)
  /-- a provider that was asked directly failed -/
  | source (text : String)
  | missing (what : Missing)
  deriving DecidableEq, Repr

/-- What a command shows. -/
inductive Shown where
  | nothing
  | flag (b : Bool)
  | number (n : Nat)
  | text (s : String)
  | scope (user : Scope)
  | caller (user : Scope)
  | names (names : List String)
  /-- the number of children in a table -/
  | children (n : Nat)
  /-- the numbers of kept answers -/
  | sizes (native hooked : Nat)
  | answer (a : Answer)
  | token (t : Token)
  | tokens (ts : List Token)
  | entry (e : Option Cache.Entry)
  | cache (c : Cache)
  | summary (g : LevelGraph)
  | graph (g : LevelGraph)
  | level (g : LevelGraph) (n : Nat) (ids : Option (List NodeId))
  | node (n : Option (NodeId × LevelGraph.Node))
  | id (i : Option NodeId)
  /-- a path graph was begun -/
  | begun (size : Nat)
  | linked (ids : List NodeId) (tokens : List Token) (size : Nat)
  | paths (paths : List (List Token)) (size : Nat)
  | sent (count : Nat) (all : List Token)

/-- What is done in a session. -/
abbrev Doing (σ α : Type) := Act Failure (Session σ) α

variable {σ : Type}

/-- A session of a caller who is always the same. -/
def new (sources : σ) (settings : CacheSettings) (user : Scope) : Session σ :=
  ⟨Context.new sources settings, .fixed user, none, Table.empty, Table.empty, Table.empty⟩

/-- Whose cached answers are used now. -/
def scope (s : Session σ) : Scope := s.caller.scope s.login

/-- The context for diagnosis. -/
def debugContext (s : Session σ) : String :=
  Text.openRecord "AncestryContext" [("cache", s.context.cache.debug), ("authenticated", Text.ofBool s.scope.isSome)]

/-- Does something with the context. -/
def inContext {α : Type} (r : Run (Context σ) α) : Doing σ α :=
  .on (·.context) (fun context s => { s with context }) (r.mapError .error)

/-- The graph with a name. -/
def graph (name : String) : Doing σ LevelGraph := do
  match (← Act.get).graphs.find? name with
  | some g => pure g
  | none => .fail (.missing (.graph name))

/-- The path graph with a name. -/
def pathGraph (name : String) : Doing σ PathGraph := do
  match (← Act.get).explored.find? name with
  | some g => pure g
  | none => .fail (.missing (.graph name))

/-- The refresher with a name, and its caller. -/
def refresher (name : String) : Doing σ (Caller × Refresher) := do
  match (← Act.get).refreshers.find? name with
  | some r => pure r
  | none => .fail (.missing (.refresher name))

/-- Keeps a graph under a name. -/
def keepGraph (name : String) (g : LevelGraph) : Doing σ Unit := .modify fun s => { s with graphs := s.graphs.set name g }

/-- Lets a graph grow. What it has grown by stays, also when the growing fails. -/
def grow {α : Type} (name : String) (r : Run (Growing σ) α) : Doing σ α := do
  let g ← graph name
  fun s =>
    match r ⟨g, s.context⟩ with
    | (result, st) =>
      (result.mapError .error, { s with context := st.context, graphs := s.graphs.set name st.graph })

/-- Explores a path graph. What was explored stays, also when the exploring fails. -/
def explore {α : Type} (name : String) (r : Run (Exploring σ) α) : Doing σ α := do
  let g ← pathGraph name
  fun s =>
    match r ⟨g, s.context⟩ with
    | (result, st) =>
      (result.mapError .error, { s with context := st.context, explored := s.explored.set name st.graph })

/-- Works with a refresher. -/
def refresh {α : Type} (name : String) (r : Scope → Run (Refreshing σ) α) : Doing σ α := do
  let (caller, refresher) ← refresher name
  fun s =>
    match r (caller.scope s.login) ⟨refresher, s.context⟩ with
    | (result, st) =>
      (result.mapError .error,
        { s with context := st.context, refreshers := s.refreshers.set name (caller, st.refresher) })

end Session
end Lineage
