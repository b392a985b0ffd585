/-!
# Sensitive values

A value that must not be written out. It can be used, and whatever shows it shows a placeholder.
-/

namespace Lineage

/-- What is shown in place of a sensitive value. -/
def redacted : String := "***REDACTED***"

/-- A value that is not shown. -/
structure Sensitive (α : Type) where
  exposed : α
  deriving DecidableEq

namespace Sensitive

/-- A sensitive value as text: always the placeholder. -/
def display {α : Type} (_ : Sensitive α) : String := redacted

/-- A sensitive value set into a field of some width: the placeholder, without padding. -/
def displayPadded {α : Type} (_width : Nat) (s : Sensitive α) : String := s.display

end Sensitive
end Lineage
