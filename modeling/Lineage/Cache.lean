import Lineage.Source.Basic
import Lineage.Table

/-!
# The cache of answers

Answers are kept for each user and each identity, those of native sources and those of the merged rest on two shelves. The first
answer that is kept for a key stays. Nothing is evicted on its own: when a shelf would hold more than the limit, the whole shelf is
emptied, the answer that was just added included. Without a user, or when the cache is switched off, it neither keeps nor counts.
-/

namespace Lineage

/-- The two kinds of questions a graph asks: the native source alone, or the auxiliary and hooking sources merged. -/
inductive Branch where
  | native | hooked
  deriving DecidableEq, Repr

/-- The name of a branch in logs. -/
def Branch.name : Branch → String
  | .native => "native"
  | .hooked => "hooking"

/-- The name under which the cache is configured and reported. -/
def cacheName : String := "Entity token parents"

/-- The settings of the cache: whether it is used, and how many answers a shelf holds. -/
structure CacheSettings where
  enabled : Bool := true
  maxSize : Nat := 50000
  deriving DecidableEq, Repr

/-- The settings of a cache that is switched off. -/
def CacheSettings.disabled : CacheSettings := { enabled := false }

/-- The settings for diagnosis. -/
def CacheSettings.debug (s : CacheSettings) : String :=
  Text.record "CacheSettings" [("enabled", Text.ofBool s.enabled), ("max_size", toString s.maxSize)]

/-- Whose answers are looked up: those of a user, or of nobody. -/
abbrev Scope := Option String

namespace Cache

/-- The key of an answer. -/
structure Key where
  user : String
  identity : Identity
  deriving DecidableEq, Repr

/-- A kept answer, with the token that was asked about. -/
structure Entry where
  token : Token
  parents : Answer
  deriving DecidableEq, Repr

/-- The answers of one branch, and what happened to them. -/
structure Shelf where
  entries : Table Key Entry
  hits : Nat
  misses : Nat
  resets : Nat

/-- The shelf without answers. -/
def Shelf.empty : Shelf := ⟨Table.empty, 0, 0, 0⟩

/-- Counts a lookup. -/
def Shelf.count (s : Shelf) (hit : Bool) : Shelf :=
  if hit then { s with hits := s.hits + 1 } else { s with misses := s.misses + 1 }

/-- Keeps an answer for a key that has none yet, and empties a shelf that has become too large. The number of answers that were
dropped is returned. -/
def Shelf.keep (s : Shelf) (maxSize : Nat) (k : Key) (e : Entry) : Shelf × Option Nat :=
  let entries := s.entries.insertNew k e
  if maxSize < entries.size then ({ s with entries := Table.empty, resets := s.resets + 1 }, some entries.size)
  else ({ s with entries }, none)

end Cache

/-- The two shelves under their settings. -/
structure Cache where
  settings : CacheSettings
  native : Cache.Shelf
  hooked : Cache.Shelf

namespace Cache

/-- The cache without answers. -/
def new (settings : CacheSettings) : Cache := ⟨settings, Shelf.empty, Shelf.empty⟩

/-- The shelf of a branch. -/
def shelf (c : Cache) : Branch → Shelf
  | .native => c.native
  | .hooked => c.hooked

/-- The cache with another shelf for a branch. -/
def withShelf (c : Cache) (b : Branch) (s : Shelf) : Cache :=
  match b with
  | .native => { c with native := s }
  | .hooked => { c with hooked := s }

/-- The user whose answers are looked up, if the cache is used at all. -/
def userFor (c : Cache) (scope : Scope) : Option String := if c.settings.enabled then scope else none

/-- Looks an answer up and counts the lookup. -/
def lookup (c : Cache) (b : Branch) (scope : Scope) (t : Token) : Option Entry × Cache :=
  match c.userFor scope with
  | none => (none, c)
  | some user =>
    let found := (c.shelf b).entries.find? ⟨user, t.identity⟩
    (found, c.withShelf b ((c.shelf b).count found.isSome))

/-- Keeps an answer; the number of answers that were dropped is returned if the shelf overflowed. -/
def add (c : Cache) (b : Branch) (scope : Scope) (t : Token) (a : Answer) : Cache × Option Nat :=
  match c.userFor scope with
  | none => (c, none)
  | some user =>
    match (c.shelf b).keep c.settings.maxSize ⟨user, t.identity⟩ ⟨t, a⟩ with
    | (s, dropped) => (c.withShelf b s, dropped)

/-- Empties both shelves; the counters stay. -/
def clear (c : Cache) : Cache :=
  { c with
    native := { c.native with entries := Table.empty }
    hooked := { c.hooked with entries := Table.empty } }

/-- The number of answers on a shelf. -/
def size (c : Cache) (b : Branch) : Nat := (c.shelf b).entries.size

/-- The cache for diagnosis. -/
def debug (c : Cache) : String :=
  Text.record "AncestorCache" [("name", Text.quote cacheName), ("settings", c.settings.debug),
    ("native", toString (c.size .native)), ("hooking", toString (c.size .hooked))]

@[simp] theorem shelf_withShelf (c : Cache) (b b' : Branch) (s : Shelf) :
    (c.withShelf b s).shelf b' = if b' = b then s else c.shelf b' := by
  cases b <;> cases b' <;> rfl

@[simp] theorem settings_withShelf (c : Cache) (b : Branch) (s : Shelf) : (c.withShelf b s).settings = c.settings := by
  cases b <;> rfl

end Cache
end Lineage
