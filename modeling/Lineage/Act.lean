import Lineage.Error

/-!
# Acts: operations that change a state and can fail

An operation of the library is a function of the state it finds. It ends with a value or with an error, and in both cases it leaves a
state behind: what was logged, cached or attached before a failure stays.
-/

namespace Lineage

/-- An operation on states of type `s` that ends with a value of type `α` or with an error of type `ε`. -/
def Act (ε s α : Type) : Type := s → Except ε α × s

/-- An operation that fails with the errors of the library. -/
abbrev Run (s : Type) : Type → Type := Act Error s

namespace Act

variable {ε δ s t α β : Type}

/-- The operation that only has a value. -/
protected def pure (a : α) : Act ε s α := fun st => (.ok a, st)

/-- One operation after the other; a failure of the first ends both. -/
protected def bind (r : Act ε s α) (f : α → Act ε s β) : Act ε s β := fun st =>
  match r st with
  | (.ok a, st') => f a st'
  | (.error e, st') => (.error e, st')

instance : Monad (Act ε s) where
  pure := Act.pure
  bind := Act.bind

/-- The operation that fails. -/
def fail (e : ε) : Act ε s α := fun st => (.error e, st)

/-- The state as it is. -/
def get : Act ε s s := fun st => (.ok st, st)

/-- Changes the state. -/
def modify (f : s → s) : Act ε s Unit := fun st => (.ok (), f st)

/-- The value of a result, or its error. -/
def ofExcept (r : Except ε α) : Act ε s α := fun st => (r, st)

/-- An operation on a part of the state. -/
def on (part : s → t) (put : t → s → s) (r : Act ε t α) : Act ε s α := fun st =>
  match r (part st) with
  | (result, p) => (result, put p st)

/-- An operation whose errors are seen as errors of another type. -/
def mapError (f : ε → δ) (r : Act ε s α) : Act δ s α := fun st =>
  match r st with
  | (result, st') => (result.mapError f, st')

/-- Runs an operation and gives its result as a value, so that what comes next can look at a failure. -/
def attempt (r : Act ε s α) : Act ε s (Except ε α) := fun st =>
  match r st with
  | (result, st') => (.ok result, st')

@[simp] theorem pure_apply (a : α) (st : s) : (pure a : Act ε s α) st = (.ok a, st) := rfl

theorem bind_apply (r : Act ε s α) (f : α → Act ε s β) (st : s) :
    (r >>= f) st = match r st with
      | (.ok a, st') => f a st'
      | (.error e, st') => (.error e, st') := rfl

/-- What follows a success starts from the state it left. -/
theorem bind_of_ok {r : Act ε s α} {f : α → Act ε s β} {st st' : s} {a : α} (h : r st = (.ok a, st')) :
    (r >>= f) st = f a st' := by
  rw [bind_apply, h]

/-- Nothing follows a failure. -/
theorem bind_of_error {r : Act ε s α} {f : α → Act ε s β} {st st' : s} {e : ε} (h : r st = (.error e, st')) :
    (r >>= f) st = (.error e, st') := by
  rw [bind_apply, h]

@[simp] theorem fail_apply (e : ε) (st : s) : (fail e : Act ε s α) st = (.error e, st) := rfl

@[simp] theorem get_apply (st : s) : (get : Act ε s s) st = (.ok st, st) := rfl

@[simp] theorem modify_apply (f : s → s) (st : s) : (modify f : Act ε s Unit) st = (.ok (), f st) := rfl

end Act
end Lineage
