import Lineage.Source.Basic
import Lineage.Table

/-!
# Auxiliary providers

Providers are registered for a kind, that exact one, and are asked about the tokens of that kind in the order of registration. Their
answers are merged in that order. The registry knows a provider by its name; whoever asks says what a name answers.
-/

namespace Lineage

/-- The names of the providers registered for each kind. A kind whose providers are all taken away stays, without providers. -/
structure Auxiliary where
  providers : Table Kind (List String)

namespace Auxiliary

/-- No registrations. -/
def empty : Auxiliary := ⟨Table.empty⟩

instance : Inhabited Auxiliary := ⟨empty⟩

/-- The providers of a kind, in order of registration. -/
def providersFor (a : Auxiliary) (k : Kind) : List String := (a.providers.find? k).getD []

/-- Registers a provider for a kind, once. -/
def register (a : Auxiliary) (k : Kind) (name : String) : Except Error Auxiliary :=
  if name ∈ a.providersFor k then .error (.duplicateProvider k.tag)
  else .ok ⟨a.providers.set k (a.providersFor k ++ [name])⟩

/-- Takes a provider of a kind away, and tells whether it was registered. -/
def unregister (a : Auxiliary) (k : Kind) (name : String) : Bool × Auxiliary :=
  match a.providers.find? k with
  | none => (false, a)
  | some names =>
    let kept := names.filter (· ≠ name)
    (kept.length ≠ names.length, ⟨a.providers.set k kept⟩)

/-- The number of kinds that had a provider since the registry was emptied last. -/
def kindCount (a : Auxiliary) : Nat := a.providers.size

/-- The registry for diagnosis. -/
def debug (a : Auxiliary) : String := Text.record "AuxiliaryProviderRegistry" [("kinds", toString a.kindCount)]

/-- Asks providers one after the other and merges what they say; the first failure ends it. -/
def consult {σ : Type} (ask : String → Token → σ → Reply × σ) (t : Token) : List String → σ → Reply × σ
  | [], s => (.ok none, s)
  | name :: names, s =>
    match ask name t s with
    | (.error e, s') => (.error e, s')
    | (.ok answer, s') =>
      match consult ask t names s' with
      | (.error e, s'') => (.error e, s'')
      | (.ok others, s'') => (.ok (answer.merge others), s'')

end Auxiliary
end Lineage
