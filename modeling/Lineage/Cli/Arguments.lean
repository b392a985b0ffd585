import Lineage.Graph.Basic
import Lineage.Table

/-!
# Arguments

The program has three commands. A command takes options, each once and with a value, which follows the option as the next argument or
after an equals sign. The settings file may be named before the command or after it, and the name after it counts. The arguments are
read from left to right, so a request for help is granted unless there is a fault before it. A value that is an argument of its own is
checked when the next option is read, or when there are no more, so the last value before the command is checked after all the others.
-/

namespace Lineage.Cli

/-- The names of the commands. -/
inductive CommandName where
  | graph | paths | refresh
  deriving DecidableEq, Repr

/-- The options. -/
inductive Opt where
  | config | fixture | root | search | user | parent | child | requestId
  deriving DecidableEq, Repr

/-- A command as it is written. -/
def CommandName.text : CommandName → String
  | .graph => "graph"
  | .paths => "paths"
  | .refresh => "refresh"

/-- The command that is written so. -/
def CommandName.ofText? (s : String) : Option CommandName := [graph, .paths, .refresh].find? (·.text = s)

/-- The options of a command besides the settings file, in the order of its help. -/
def CommandName.options : CommandName → List Opt
  | .graph => [.fixture, .root, .search, .user]
  | .paths => [.fixture, .root]
  | .refresh => [.fixture, .parent, .child, .user, .requestId]

/-- The options that a command cannot do without. -/
def CommandName.required : CommandName → List Opt
  | .graph | .paths => [.fixture, .root]
  | .refresh => [.fixture, .parent, .child]

namespace Opt

/-- An option as it is written, without its two dashes. -/
def text : Opt → String
  | .config => "config"
  | .fixture => "fixture"
  | .root => "root"
  | .search => "search"
  | .user => "user"
  | .parent => "parent"
  | .child => "child"
  | .requestId => "request-id"

/-- Whether an option takes a value: the path of a file is not empty, and a search is one of those there are. -/
def accepts : Opt → String → Bool
  | .config, v | .fixture, v => v ≠ ""
  | .search, v => (Search.ofName? v).isSome
  | _, _ => true

end Opt

/-- What is wrong with the arguments. -/
inductive Usage where
  | unexpected (argument : String)
  | noValue (o : Opt)
  | repeated (o : Opt)
  | badValue (o : Opt) (value : String)
  | missing (o : Opt)
  | noCommand
  deriving DecidableEq, Repr

/-- The wording of what is wrong. -/
def Usage.message : Usage → String
  | .unexpected argument => "unexpected argument '" ++ argument ++ "'"
  | .noValue o => "option '--" ++ o.text ++ "' has no value"
  | .repeated o => "option '--" ++ o.text ++ "' is given more than once"
  | .badValue o value => "invalid value '" ++ value ++ "' for option '--" ++ o.text ++ "'"
  | .missing o => "option '--" ++ o.text ++ "' is missing"
  | .noCommand => "there is no command"

/-- What help is asked about. -/
inductive Topic where
  | program
  | command (name : CommandName)
  /-- the command that prints help -/
  | help
  deriving DecidableEq, Repr

/-- Why the reading of arguments stops before there is something to do. -/
inductive Stop where
  | usage (u : Usage)
  | help (t : Topic)
  deriving DecidableEq, Repr

/-- The options with their values. -/
abbrev Given := Table Opt String

/-- An argument by its form. -/
inductive Form where
  /-- not an option -/
  | plain
  /-- the two dashes after which there are no options -/
  | noMoreOptions
  /-- a request for help -/
  | help
  /-- an option, with a value after an equals sign if there is one -/
  | option (name : String) (value : Option String)
  /-- letters after one dash, the first of which is unknown -/
  | letters
  deriving DecidableEq, Repr

/-- The form of an argument. A dash alone is not an option. -/
def formOf (argument : String) : Form :=
  match argument.toList with
  | ['-', '-'] => .noMoreOptions
  | '-' :: '-' :: cs =>
    let value := (cs.dropWhile (· ≠ '=')).tail?.map String.ofList
    let name := String.ofList (cs.takeWhile (· ≠ '='))
    if name = "help" ∧ value = none then .help else .option name value
  | '-' :: 'h' :: _ => .help
  | ['-'] => .plain
  | '-' :: _ => .letters
  | _ => .plain

/-- Gives an option its value. -/
def give (given : Given) (o : Opt) (value : String) : Except Stop Given :=
  if !o.accepts value then .error (.usage (.badValue o value))
  else if given.contains o then .error (.usage (.repeated o))
  else .ok (given.set o value)

/-- The options read so far. -/
structure Reading where
  given : Given
  /-- the last option with its value, if they are still to be checked -/
  waiting : Option (Opt × String)

/-- Nothing has been read. -/
def Reading.start : Reading := ⟨Table.empty, none⟩

/-- The options with their values when all of them are checked. -/
def Reading.settled (r : Reading) : Except Stop Given :=
  match r.waiting with
  | none => .ok r.given
  | some (o, value) => give r.given o value

/-- Reads options up to the first argument that is not one. -/
def readOptions (topic : Topic) (allowed : List Opt) : Reading → List String → Except Stop (Reading × List String)
  | r, [] => .ok (r, [])
  | r, argument :: rest =>
    match formOf argument with
    | .plain => .ok (r, argument :: rest)
    | .help => r.settled.bind fun _ => .error (.help topic)
    | .letters => .error (.usage (.unexpected argument))
    | .noMoreOptions =>
      match rest with
      | [] => .ok (r, [])
      | next :: _ => .error (.usage (.unexpected next))
    | .option name value =>
      match allowed.find? (·.text = name) with
      | none => .error (.usage (.unexpected argument))
      | some o =>
        match r.settled, value, rest with
        | .error stop, _, _ => .error stop
        | .ok given, some v, rest =>
          match give given o v with
          | .ok given => readOptions topic allowed ⟨given, none⟩ rest
          | .error stop => .error stop
        | .ok given, none, v :: rest =>
          if formOf v = .plain then readOptions topic allowed ⟨given, some (o, v)⟩ rest else .error (.usage (.noValue o))
        | .ok _, none, [] => .error (.usage (.noValue o))

/-- A command with its options. -/
inductive Command where
  | graph (fixture root : String) (search : Search) (user : Option String)
  | paths (fixture root : String)
  | refresh (fixture parent child : String) (user requestId : Option String)
  deriving DecidableEq, Repr

/-- What the program is asked to do, under the settings of a file if one is named. -/
structure Invocation where
  config : Option String
  command : Command
  deriving DecidableEq, Repr

/-- The value of an option that cannot be left out. -/
def needed (given : Given) (o : Opt) : Except Stop String :=
  match given.find? o with
  | some v => .ok v
  | none => .error (.usage (.missing o))

/-- The command with a name and the options given. -/
def commandOf (given : Given) : CommandName → Except Stop Command
  | .graph => do
    let search := ((given.find? .search).bind Search.ofName?).getD .both
    pure (.graph (← needed given .fixture) (← needed given .root) search (given.find? .user))
  | .paths => do pure (.paths (← needed given .fixture) (← needed given .root))
  | .refresh => do
    pure (.refresh (← needed given .fixture) (← needed given .parent) (← needed given .child)
      (given.find? .user) (given.find? .requestId))

/-- The topic that the arguments of the help command name. -/
def topicOf : List String → Option Topic
  | [] => some .program
  | ["help"] => some .help
  | [name] => (CommandName.ofText? name).map .command
  | _ => none

/-- Reads the arguments of the program. -/
def readArguments (arguments : List String) : Except Stop Invocation := do
  match ← readOptions .program [.config] .start arguments with
  | (_, []) => .error (.usage .noCommand)
  | (before, word :: rest) =>
    if word = "help" then
      match topicOf rest with
      | some topic => .error (.help topic)
      | none => .error (.usage (.unexpected (rest.headD word)))
    else
      match CommandName.ofText? word with
      | none => .error (.usage (.unexpected word))
      | some name =>
        match ← readOptions (.command name) (.config :: name.options) .start rest with
        | (_, next :: _) => .error (.usage (.unexpected next))
        | (after, []) => do
          let given ← after.settled
          let command ← commandOf given name
          pure ⟨(given.find? .config).or ((← before.settled).find? .config), command⟩

end Lineage.Cli
