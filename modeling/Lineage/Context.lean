import Lineage.Cache
import Lineage.Log.Event
import Lineage.Act
import Lineage.Sensitive

/-!
# Asking for parents

A context is what graphs are built against: sources, the cache in front of them, and the log. Two questions go through the cache, one
for the native parents and one for the merged rest; a failing source leaves nothing in it. The context does not know users: whoever
asks says under which scope.
-/

namespace Lineage

/-- Sources with the cache in front of them, and the events logged so far. -/
structure Context (σ : Type) where
  sources : σ
  cache : Cache
  log : Array Log.Event

namespace Context

variable {σ : Type}

/-- Fresh sources behind an empty cache. -/
def new (sources : σ) (settings : CacheSettings) : Context σ := ⟨sources, Cache.new settings, #[]⟩

/-- Logs an event. -/
def emit (e : Log.Event) : Run (Context σ) Unit := .modify fun c => { c with log := c.log.push e }

/-- Runs an operation between the event of its start and the event of its end. Which of the two ends is logged is settled by the
result; the fields of a success are read off its value. -/
def loggedBy {s α : Type} (emit : Log.Event → Run s Unit) (target op : String) (fields : List (String × Log.Value))
    (onSuccess : α → List (String × Log.Value)) (onFailure : List (String × Log.Value)) (r : Run s α) : Run s α := do
  emit (Log.started target op fields)
  match ← Act.attempt r with
  | .ok a =>
    emit (Log.ended target op .elapsed (onSuccess a))
    pure a
  | .error e =>
    emit (Log.failed target op .elapsed e onFailure)
    Act.fail e

/-- The part of the program that logs for the cache. -/
def cacheTarget : String := "tokengraph_core::cache"

/-- The event of a lookup. The user is never named. -/
def lookupEvent (b : Branch) (user : Sensitive String) (t : Token) (hit : Bool) : Log.Event :=
  { level := .trace, target := cacheTarget
    fields := [(Log.componentField, .text cacheTarget), ("cache_category", .text b.name), ("user", .text user.display),
      ("token", .text t.display), ("hit", .flag hit)] }

/-- The event of an overflow. -/
def resetEvent (b : Branch) (dropped maxSize : Nat) : Log.Event :=
  { level := .debug, target := cacheTarget, event := some Log.resetEvent
    fields := [(Log.componentField, .text cacheTarget), ("cache", .text cacheName), ("cache_category", .text b.name),
      ("dropped", .number dropped), ("max_size", .number maxSize)] }

/-- Looks an answer up in the cache, and logs the lookup if it was one. -/
def lookup (b : Branch) (scope : Scope) (t : Token) : Run (Context σ) (Option Cache.Entry) := fun c =>
  match c.cache.lookup b scope t with
  | (found, cache) =>
    match c.cache.userFor scope with
    | none => (.ok found, { c with cache })
    | some user => (.ok found, { c with cache, log := c.log.push (lookupEvent b ⟨user⟩ t found.isSome) })

/-- Keeps an answer in the cache, and logs the overflow if there was one. -/
def keep (b : Branch) (scope : Scope) (t : Token) (a : Answer) : Run (Context σ) Unit := fun c =>
  match c.cache.add b scope t a with
  | (cache, none) => (.ok (), { c with cache })
  | (cache, some dropped) =>
    (.ok (), { c with cache, log := c.log.push (resetEvent b dropped c.cache.settings.maxSize) })

/-- Forgets every answer, as when the parents have changed. -/
def flush : Run (Context σ) Unit := .modify fun c => { c with cache := c.cache.clear }

variable [Sources σ]

/-- Asks the source of one category. -/
def ask (category : Category) (t : Token) : Run (Context σ) Answer := fun c =>
  match Sources.ask category t c.sources with
  | (.ok a, sources) => (.ok a, { c with sources })
  | (.error cause, sources) => (.error (.sourceFailed category t.display cause), { c with sources })

/-- Asks the auxiliary and then the hooking source, and merges what they say. -/
def askMerged (t : Token) : Run (Context σ) Answer := do
  let auxiliary ← ask .auxiliary t
  let hooking ← ask .hooking t
  pure (auxiliary.merge hooking)

/-- Asks the sources of a branch. -/
def askBranch : Branch → Token → Run (Context σ) Answer
  | .native => ask .native
  | .hooked => askMerged

/-- The parents on a branch, from the cache if they are there. What is asked of the sources is kept. -/
def parents (scope : Scope) (b : Branch) (t : Token) : Run (Context σ) Answer := do
  match ← lookup b scope t with
  | some entry => pure entry.parents
  | none =>
    let a ← askBranch b t
    keep b scope t a
    pure a

end Context
end Lineage
