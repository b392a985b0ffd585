import Lineage.Token.Wire

/-!
# What can go wrong

An `Error` is the cause, with the data that its message needs. A `Report` is the form in which an error is handed on: its kind with a
stable code, the operation and the token involved where there are any, and a message.
-/

namespace Lineage

/-- Where a parent comes from. -/
inductive Category where
  /-- the structure of the system itself -/
  | native
  /-- providers that are registered for a kind -/
  | auxiliary
  /-- links that are hooked on at run time -/
  | hooking
  deriving DecidableEq, Repr

/-- The name of a category in messages. -/
def Category.name : Category → String
  | .native => "native"
  | .auxiliary => "auxiliary"
  | .hooking => "hooking"

/-- What is wrong with the settings. -/
inductive SettingsProblem where
  /-- a file cannot be read -/
  | unreadable (path cause : String)
  /-- a file is not in the format of settings -/
  | notSettings
  /-- an override in the environment has a value that cannot be read -/
  | badOverride (value name : String)
  /-- a problem in other words -/
  | other (message : String)
  deriving DecidableEq, Repr

/-- How messages about a text that is not of the expected format begin. -/
def formatErrorText : String := "TOML parse error"

/-- The wording of a problem with the settings. -/
def SettingsProblem.message : SettingsProblem → String
  | .unreadable path cause => "cannot read " ++ path ++ ": " ++ cause
  | .notSettings => formatErrorText
  | .badOverride value name => "invalid value '" ++ value ++ "' for " ++ name
  | .other message => message

/-- The causes for which an operation of the library fails. -/
inductive Error where
  /-- a token has parents beyond the deepest level that is looked at -/
  | tooDeep (root : String) (limit : Nat)
  /-- a source failed when it was asked about a token -/
  | sourceFailed (category : Category) (token cause : String)
  /-- a graph has no node with this id -/
  | unknownNode (id : Nat)
  /-- a refresher was used twice -/
  | alreadyPosted
  /-- a text is not a token -/
  | malformed (what : Token.Malformed)
  /-- a tag has no codec -/
  | unknownKind (tag : String)
  /-- a tag has a codec already -/
  | duplicateKind (tag : String)
  /-- a provider is registered for a kind already -/
  | duplicateProvider (tag : String)
  /-- the settings cannot be used -/
  | settings (problem : SettingsProblem)
  deriving DecidableEq, Repr

/-- The message of an error. -/
def Error.message : Error → String
  | .tooDeep root limit =>
    "The entity token '" ++ root ++ "' has more than " ++ toString limit ++
      " levels of parents, this might be an infinite loop"
  | .sourceFailed category token _ => category.name ++ " ancestor provider failed for token '" ++ token ++ "'"
  | .unknownNode id => "Node " ++ toString id ++ " does not exist in this graph"
  | .alreadyPosted => "Only one post_refresh_messages call is allowed per refresher"
  | .malformed what => "Malformed serialized entity token: " ++ what.reason
  | .unknownKind tag => "Unknown entity token kind: " ++ tag
  | .duplicateKind tag => "Entity token kind already registered: " ++ tag
  | .duplicateProvider tag => "Auxiliary ancestor provider already registered for kind " ++ tag
  | .settings problem => "Configuration error: " ++ problem.message

/-- The error of the source that is behind an error. -/
def Error.cause? : Error → Option String
  | .sourceFailed _ _ cause => some cause
  | _ => none

/-- Kinds of errors, for whoever has to react to one. -/
inductive ErrorKind where
  | invalidInput | notFound | alreadyExists | depthLimit | contractViolation | providerFailure | configuration
  deriving DecidableEq, Repr

namespace ErrorKind

/-- The name of a kind. -/
def name : ErrorKind → String
  | .invalidInput => "InvalidInput"
  | .notFound => "NotFound"
  | .alreadyExists => "AlreadyExists"
  | .depthLimit => "DepthLimitExceeded"
  | .contractViolation => "ContractViolation"
  | .providerFailure => "ProviderFailure"
  | .configuration => "Configuration"

/-- The code of a kind, which never changes. -/
def code : ErrorKind → String
  | .invalidInput => "ERR_INVALID_INPUT"
  | .notFound => "ERR_NOT_FOUND"
  | .alreadyExists => "ERR_ALREADY_EXISTS"
  | .depthLimit => "ERR_DEPTH_LIMIT_EXCEEDED"
  | .contractViolation => "ERR_CONTRACT_VIOLATION"
  | .providerFailure => "ERR_PROVIDER_FAILURE"
  | .configuration => "ERR_CONFIGURATION"

/-- Whether trying again cannot help: the data or the caller is broken. -/
def fatal : ErrorKind → Bool
  | .depthLimit | .contractViolation => true
  | _ => false

/-- All kinds. -/
def all : List ErrorKind :=
  [.invalidInput, .notFound, .alreadyExists, .depthLimit, .contractViolation, .providerFailure, .configuration]

end ErrorKind

/-- An error in the form in which it is handed on. -/
structure Report where
  kind : ErrorKind
  op : Option String := none
  token : Option String := none
  message : String := ""
  deriving DecidableEq, Repr

/-- A report in one line: the code, then whatever of operation, message and token there is. -/
def Report.display (r : Report) : String :=
  "[" ++ r.kind.code ++ "]" ++
    (match r.op with | some op => " in operation '" ++ op ++ "'" | none => "") ++
    (if r.message = "" then "" else ": " ++ r.message) ++
    (match r.token with | some token => " (token: " ++ token ++ ")" | none => "")

/-- The report of an error. -/
def Error.report : Error → Report
  | .tooDeep root limit =>
    { kind := .depthLimit, op := some "expand_level", token := some root
      message := "more than " ++ toString limit ++ " levels of parents, suspected cycle in ancestor data" }
  | .sourceFailed category token cause =>
    { kind := .providerFailure, token := some token, message := category.name ++ " provider failed: " ++ cause }
  | .unknownNode id => { kind := .notFound, message := (Error.unknownNode id).message }
  | .alreadyPosted =>
    { kind := .contractViolation, op := some "post_refresh_messages"
      message := "Only one post_refresh_messages call is allowed" }
  | .malformed what =>
    { kind := .invalidInput, op := some "deserialize_token", message := (Error.malformed what).message }
  | .unknownKind tag =>
    { kind := .notFound, op := some "deserialize_token", message := (Error.unknownKind tag).message }
  | .duplicateKind tag =>
    { kind := .alreadyExists, op := some "register_token_kind", message := (Error.duplicateKind tag).message }
  | .duplicateProvider tag =>
    { kind := .alreadyExists, op := some "add_auxiliary_provider"
      message := "Provider already registered for kind " ++ tag }
  | .settings problem => { kind := .configuration, message := problem.message }

/-- The kind of an error. -/
def Error.kind (e : Error) : ErrorKind := e.report.kind

end Lineage
