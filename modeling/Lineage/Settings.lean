import Lineage.Act
import Lineage.Cache
import Lineage.Text.Blank
import Lineage.Text.Number
import Lineage.Toml.Document
import Lineage.Toml.Record

/-!
# Settings

Settings are read from a document in which every section and every field may be left out, and then two variables of the environment
override the section of the cache. The overrides are applied one after the other, so the first may be in effect when the second is
refused.
-/

namespace Lineage

/-- What the log is for. -/
inductive Profile where
  | development | production | test
  deriving DecidableEq, Repr

namespace Profile

/-- The profile with a name in a document. -/
def ofName? : String → Option Profile
  | "development" => some .development
  | "production" => some .production
  | "test" => some .test
  | _ => none

/-- The profile for diagnosis. -/
def debug : Profile → String
  | .development => "Development"
  | .production => "Production"
  | .test => "Test"

end Profile

/-- The settings of a program. -/
structure Settings where
  cache : CacheSettings := {}
  profile : Profile := .development
  deriving DecidableEq, Repr

/-- The value of each variable of the environment that is set. -/
abbrev Environment := String → Option String

namespace Settings

open Toml (Value)

/-- The settings of the cache that a value describes. -/
def cacheOf? (v : Value) : Option CacheSettings := do
  let field ← v.fields? ["enabled", "max_size"]
  let enabled ← Value.withDefault true Value.flag? (field "enabled")
  let maxSize ← Value.withDefault 50000 Value.number? (field "max_size")
  pure { enabled, maxSize }

/-- The profile that the section of the log describes. -/
def profileOf? (v : Value) : Option Profile := do
  let field ← v.fields? ["profile"]
  Value.withDefault .development (Value.choice? Profile.ofName?) (field "profile")

/-- The settings that a document describes. -/
def ofValue? (v : Value) : Option Settings := do
  let field ← v.fields? ["cache", "logging"]
  let cache ← Value.withDefault {} cacheOf? (field "cache")
  let profile ← Value.withDefault .development profileOf? (field "logging")
  pure { cache, profile }

/-- The settings that a text describes. -/
def ofText (s : String) : Except SettingsProblem Settings :=
  match (Toml.document? s).bind ofValue? with
  | some settings => .ok settings
  | none => .error .notSettings

/-- The variable that switches the cache on or off. -/
def enabledVariable : String := "TOKENGRAPH_CACHE_ENABLED"

/-- The variable of the number of answers that a shelf holds. -/
def maxSizeVariable : String := "TOKENGRAPH_CACHE_MAX_SIZE"

/-- The value of a variable without the blanks around it, read if the variable is set. -/
def override {α : Type} (environment : Environment) (name : String) (read : String → Option α) :
    Except SettingsProblem (Option α) :=
  match environment name with
  | none => .ok none
  | some value =>
    match read (Text.trim value) with
    | some a => .ok (some a)
    | none => .error (.badOverride value name)

/-- Applies the override of one variable. -/
def applyOverride {α : Type} (environment : Environment) (name : String) (read : String → Option α)
    (put : α → CacheSettings → CacheSettings) : Act SettingsProblem Settings Unit := do
  match ← Act.ofExcept (override environment name read) with
  | none => pure ()
  | some a => .modify fun s => { s with cache := put a s.cache }

/-- Applies the overrides of both variables. -/
def applyOverrides (environment : Environment) : Act SettingsProblem Settings Unit := do
  applyOverride environment enabledVariable Text.bool? fun enabled c => { c with enabled }
  applyOverride environment maxSizeVariable Text.word? fun maxSize c => { c with maxSize }

/-- The given settings under the overrides. -/
def overridden (s : Settings) (environment : Environment) : Except SettingsProblem Settings :=
  match applyOverrides environment s with
  | (.ok (), s') => .ok s'
  | (.error e, _) => .error e

/-- The settings of a program: those of a file if there is one, under the overrides. -/
def load (read : String → Except String String) (path : Option String) (environment : Environment) :
    Except SettingsProblem Settings := do
  match path with
  | none => overridden {} environment
  | some path =>
    let text ← (read path).mapError (.unreadable path)
    let settings ← ofText text
    overridden settings environment

end Settings
end Lineage
