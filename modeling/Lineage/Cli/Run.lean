import Lineage.Cli.Help
import Lineage.Files
import Lineage.Fixture.Basic
import Lineage.Graph.Paths
import Lineage.Log.Filter
import Lineage.Log.Line
import Lineage.Refresher

/-!
# Running the program

A run reads the arguments, then the settings, then the fixture, and then does what its command says. It reads files and the
environment through its surroundings and leaves an outcome behind: everything that it prints, and how it ends. The log is set up
between the settings and the fixture.
-/

namespace Lineage

/-- How the lines of a log are written. -/
inductive Log.Style where
  | plain | json
  deriving DecidableEq, Repr

/-- How a profile writes the log, and what it lets through unless the environment says otherwise; a profile for tests writes none. -/
def Profile.logging : Profile → Option (Log.Style × Log.Filter)
  | .development => some (.plain, .ofTarget "tokengraph" (some .debug))
  | .production => some (.json, .ofTarget "tokengraph" (some .info))
  | .test => none

/-- The paths of a token, each from the token to where it ends. -/
def PathGraph.pathsOf {σ : Type} [Sources σ] (root : Token) : Run (Context σ) (List (List Token)) := fun c =>
  match Exploring.allPaths PathGraph.pathLimit 0 (⟨PathGraph.start root, c⟩ : Exploring σ) with
  | (.ok paths, s) => (.ok (paths.getD []), s.context)
  | (.error e, s) => (.error e, s.context)

/-- The tokens to show anew after a child was added below a parent, all in one go. -/
def Refresher.refreshed {σ : Type} [Sources σ] (scope : Scope) (requestId : String) (parent child : Token) :
    Run (Context σ) (List Token) := do
  let r ← Refresher.new scope requestId true parent
  fun c =>
    match Refreshing.post scope child (⟨r, c⟩ : Refreshing σ) with
    | (.ok _, s) => (.ok s.refresher.sent, s.context)
    | (.error e, s) => (.error e, s.context)

namespace Cli

/-- What a run depends on besides its arguments. -/
structure Surroundings where
  files : Files
  environment : Environment
  /-- the request id for a run that is given none -/
  freshId : String

/-- What a run leaves behind. -/
structure Outcome where
  exit : Nat
  output : String
  /-- how the log is written, if it is -/
  style : Option Log.Style
  /-- the events that are let through -/
  events : List Log.Event
  /-- the last line of the error output -/
  complaint : Option String
  deriving DecidableEq, Repr

/-- The variable that overrides what of the log is let through. -/
def filterVariable : String := "RUST_LOG"

/-- The filter that the environment describes, or the given one if it describes none; none at all when its text is torn. -/
def filterOf (environment : Environment) (default : Log.Filter) : Option Log.Filter :=
  match (environment filterVariable).map Log.Filter.ofText with
  | some (.ok f) => some f
  | some (.error .torn) => none
  | some (.error .refused) | none => some default

/-- The file of the fixture that a command needs. -/
def Command.fixture : Command → String
  | .graph fixture .. | .paths fixture _ | .refresh fixture .. => fixture

/-- The part of the program that logs for the refresh command. -/
def refreshTarget : String := "tokengraph::commands::refresh"

/-- The event that the tokens to show anew are known. -/
def computedEvent (count : Nat) : Log.Event :=
  { level := .debug, target := refreshTarget
    fields := [(Log.messageField, .text "refresh computed"), ("refresh_count", .number count)] }

/-- Texts as lines. -/
def lines (ts : List String) : String := String.join (ts.map (· ++ "\n"))

/-- What a command prints, as an operation on the context of its fixture. The tokens it is about are looked up first. -/
def Command.printing (f : Fixture) (freshId : String) : Command → Except Fixture.Problem (Run (Context Catalog) String)
  | .graph _ root search user => do
    let root ← f.token root
    pure do
      let g ← LevelGraph.build user search root false
      pure g.display
  | .paths _ root => do
    let root ← f.token root
    pure do
      let paths ← PathGraph.pathsOf root
      pure (lines (paths.map fun path => " -> ".intercalate (path.map f.label)))
  | .refresh _ parent child user requestId => do
    let parent ← f.token parent
    let child ← f.token child
    pure do
      let tokens ← Refresher.refreshed user (requestId.getD freshId) parent child
      Context.emit (computedEvent tokens.length)
      pure (lines (tokens.map f.label))

/-- The outcome of a run that could not begin. -/
def failedWith (message : String) : Outcome := ⟨1, "", none, [], some ("Error: " ++ message)⟩

/-- The outcome of a run that broke off because its log cannot be set up. -/
def brokenOff : Outcome := ⟨101, "", none, [], some "a part of the filter begins or ends inside of a character"⟩

/-- Does what a command says, with the style of the log and its filter if one is written. -/
def Command.perform (w : Surroundings) (settings : Settings) (logging : Option (Log.Style × Log.Filter)) (c : Command) :
    Except Fixture.Problem Outcome := do
  let f ← Fixture.load (fun path => (w.files path).mapError (·.message)) c.fixture
  let printing ← c.printing f w.freshId
  let (result, context) := printing (f.context settings)
  let events := match logging with
    | some (_, filter) => context.log.toList.filter filter.passes
    | none => []
  match result with
  | .ok output => pure ⟨0, output, logging.map (·.1), events, none⟩
  | .error e => pure ⟨1, "", logging.map (·.1), events, some ("Error: " ++ e.message)⟩

/-- Does what a command says under settings. -/
def Command.performUnder (w : Surroundings) (settings : Settings) (c : Command) : Outcome :=
  match settings.profile.logging.mapM fun (style, default) => (filterOf w.environment default).map (style, ·) with
  | none => brokenOff
  | some logging =>
    match c.perform w settings logging with
    | .error problem => failedWith problem.message
    | .ok outcome => outcome

/-- Does what is asked for. -/
def Invocation.perform (w : Surroundings) (i : Invocation) : Outcome :=
  match Settings.load (fun path => (w.files path).mapError (·.message)) i.config w.environment with
  | .error problem => failedWith (Error.settings problem).message
  | .ok settings => i.command.performUnder w settings

/-- What a stop before the run leaves behind. -/
def Stop.outcome : Stop → Outcome
  | .help topic => ⟨0, topic.text, none, [], none⟩
  | .usage u => ⟨2, "", none, [], some ("error: " ++ u.message)⟩

/-- Runs the program. -/
def run (w : Surroundings) (arguments : List String) : Outcome :=
  match readArguments arguments with
  | .error stop => stop.outcome
  | .ok i => i.perform w

/-- The lines of the error output, of which those of the log bear a time. -/
def Outcome.errorLines (o : Outcome) (timestamp : String) (elapsed : Nat) : List String :=
  (match o.style with
    | some .json => o.events.map (Log.Line.json timestamp elapsed)
    | some .plain => o.events.map (Log.Line.plain timestamp elapsed)
    | none => []) ++ o.complaint.toList

/-- The files that may be read for some arguments. -/
def filesFor (arguments : List String) : List String :=
  match readArguments arguments with
  | .error _ => []
  | .ok i => i.config.toList ++ [i.command.fixture]

end Cli
end Lineage
