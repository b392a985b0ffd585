import Lineage.Act

/-!
# Specifications of operations, and comparisons of them

`Act.Spec P r Q E`: from a state with `P`, the operation `r` ends with a value and a state related by `Q`, or fails with an error and a
state related by `E`. `Act.Keeps P r` says less: whatever comes of `r`, `P` still holds. `Act.Refines R r q` compares two operations on
states related by `R`: whenever `r` ends with a value, `q` ends with the same value, in states related again. `Act.Mirrors R A r q` asks
for more: both end with values related by `A`, or both fail with the same error, and the states are related again in any case.
`Act.Writes out T r` looks at an output that the states carry: whatever comes of `r`, it has appended something with `T` to it. All of
them follow the structure of the operation.
-/

namespace Lineage.Act

variable {ε s t p α β γ ω : Type}

/-- What ended with a value did so in each of its parts. -/
theorem exists_of_bind_eq_ok {r : Act ε s α} {k : α → Act ε s β} {st st'' : s} {b : β} (h : (r >>= k) st = (.ok b, st'')) :
    ∃ a st', r st = (.ok a, st') ∧ k a st' = (.ok b, st'') := by
  rcases hr : r st with ⟨e | a, st'⟩
  · rw [bind_of_error hr] at h
    cases h
  · rw [bind_of_ok hr] at h
    exact ⟨a, st', rfl, h⟩

/-- What failed did so in its first part, or in its second part after the first one ended with a value. -/
theorem bind_eq_error_iff {r : Act ε s α} {k : α → Act ε s β} {st st'' : s} {e : ε} :
    (r >>= k) st = (.error e, st'') ↔
      r st = (.error e, st'') ∨ ∃ a st', r st = (.ok a, st') ∧ k a st' = (.error e, st'') := by
  constructor
  · intro h
    rcases hr : r st with ⟨e' | a, st'⟩
    · rw [bind_of_error hr] at h
      cases h
      exact Or.inl rfl
    · rw [bind_of_ok hr] at h
      exact Or.inr ⟨a, st', rfl, h⟩
  · rintro (hr | ⟨a, st', hr, hk⟩)
    · exact bind_of_error hr
    · exact (bind_of_ok hr).trans hk

/-- What was computed of the value of an operation is so of the value that it ended with. -/
theorem exists_of_map_eq_some {r : Act ε s α} {st : s} {F : α → β} {b : β} (h : (r st).1.toOption.map F = some b) :
    ∃ a st', r st = (.ok a, st') ∧ F a = b := by
  rcases hr : r st with ⟨e | a, st'⟩
  · rw [hr] at h
    cases h
  · rw [hr] at h
    exact ⟨a, st', rfl, Option.some.inj h⟩

/-- The same for the values of two operations. -/
theorem exists_of_map₂_eq_some {r : Act ε s α} {q : Act ε t β} {st : s} {st₀ : t} {F : α → β → γ} {c : γ}
    (h : ((r st).1.toOption.bind fun a => (q st₀).1.toOption.map (F a)) = some c) :
    ∃ a st' b st₀', r st = (.ok a, st') ∧ q st₀ = (.ok b, st₀') ∧ F a b = c := by
  rcases hr : r st with ⟨e | a, st'⟩
  · rw [hr] at h
    cases h
  · rw [hr] at h
    obtain ⟨b, st₀', hq, hc⟩ := exists_of_map_eq_some h
    exact ⟨a, st', b, st₀', rfl, hq, hc⟩

/-- What holds of an operation's end if `P` holds where it begins: `Q` of a value, `E` of a failure. -/
def Spec (P : s → Prop) (r : Act ε s α) (Q : α → s → Prop) (E : ε → s → Prop) : Prop :=
  ∀ st, P st → match r st with
    | (.ok a, st') => Q a st'
    | (.error e, st') => E e st'

section Spec

variable {P : s → Prop} {Q : α → s → Prop} {E : ε → s → Prop}

/-- An operation ends with a value or fails, and the specification says what holds then. -/
theorem Spec.outcome {r : Act ε s α} (h : Spec P r Q E) {st : s} (hp : P st) :
    (∃ a st', r st = (.ok a, st') ∧ Q a st') ∨ ∃ e st', r st = (.error e, st') ∧ E e st' := by
  have hs := h st hp
  rcases hr : r st with ⟨e | a, st'⟩
  · rw [hr] at hs
    exact Or.inr ⟨e, st', rfl, hs⟩
  · rw [hr] at hs
    exact Or.inl ⟨a, st', rfl, hs⟩

/-- What a specification says of an operation that ended with a value. -/
theorem Spec.of_ok {r : Act ε s α} (h : Spec P r Q E) {st st' : s} {a : α} (hp : P st) (hr : r st = (.ok a, st')) :
    Q a st' := by
  have := h st hp
  rwa [hr] at this

/-- What a specification says of an operation that failed. -/
theorem Spec.of_error {r : Act ε s α} (h : Spec P r Q E) {st st' : s} {e : ε} (hp : P st)
    (hr : r st = (.error e, st')) : E e st' := by
  have := h st hp
  rwa [hr] at this

/-- A specification may ask for more and promise less. -/
theorem Spec.weaken {r : Act ε s α} {P' : s → Prop} {Q' : α → s → Prop} {E' : ε → s → Prop} (h : Spec P r Q E)
    (hp : ∀ st, P' st → P st) (hq : ∀ a st, Q a st → Q' a st) (he : ∀ e st, E e st → E' e st) : Spec P' r Q' E' := by
  intro st hst
  have hs := h st (hp st hst)
  rcases hr : r st with ⟨_ | a, st'⟩
  · rw [hr] at hs
    exact he _ _ hs
  · rw [hr] at hs
    exact hq _ _ hs

/-- What holds of every state with `P` holds of one of them. -/
theorem Spec.of_state {r : Act ε s α} (h : Spec P r Q E) {st : s} (hp : P st) : Spec (· = st) r Q E := by
  rintro _ rfl
  exact h _ hp

/-- What never fails may be said to fail in any way. -/
theorem Spec.never {r : Act ε s α} (h : Spec P r Q fun _ _ => False) : Spec P r Q E :=
  h.weaken (fun _ h => h) (fun _ _ h => h) fun _ _ h => h.elim

/-- A fact that does not depend on the state is at hand for the rest. -/
theorem Spec.given {C : Prop} {r : Act ε s α} (h : C → Spec P r Q E) : Spec (fun st => C ∧ P st) r Q E :=
  fun st hst => h hst.1 st hst.2

theorem Spec.pure {a : α} (h : ∀ st, P st → Q a st) : Spec P (pure a : Act ε s α) Q E := h

theorem Spec.fail {e : ε} (h : ∀ st, P st → E e st) : Spec P (fail e : Act ε s α) Q E := h

/-- A result that is a value is that value. -/
theorem Spec.ofExcept {x : Except ε α} {a : α} (hx : x = .ok a) : Spec P (ofExcept x : Act ε s α) (fun b st => b = a ∧ P st) E := by
  intro st hst
  rw [hx]
  exact ⟨rfl, hst⟩

theorem Spec.modify {f : s → s} {Q : Unit → s → Prop} (h : ∀ st, P st → Q () (f st)) :
    Spec P (modify f : Act ε s Unit) Q E := h

/-- One operation after the other: what the first promises is what the second starts from. -/
theorem Spec.bind {r : Act ε s α} {k : α → Act ε s β} {R : α → s → Prop} {Q : β → s → Prop} (h : Spec P r R E)
    (hk : ∀ a, Spec (R a) (k a) Q E) : Spec P (r >>= k) Q E := by
  intro st hst
  have hs := h st hst
  rcases hr : r st with ⟨e | a, st'⟩
  · rw [hr] at hs
    rw [bind_of_error hr]
    exact hs
  · rw [hr] at hs
    rw [bind_of_ok hr]
    exact hk a st' hs

/-- What follows a look at the state starts from that state. -/
theorem Spec.get {k : s → Act ε s α} (h : ∀ st, P st → Spec (· = st) (k st) Q E) : Spec P (Act.get >>= k) Q E :=
  fun st hst => h st hst st rfl

/-- An operation whose failure is looked at does not fail. -/
theorem Spec.attempt {r : Act ε s α} (h : Spec P r Q E) :
    Spec P (Act.attempt r) (fun x st => match x with | .ok a => Q a st | .error e => E e st) fun _ _ => False := by
  intro st hst
  have hs := h st hst
  unfold Act.attempt
  rcases hr : r st with ⟨_ | a, st'⟩
  · rwa [hr] at hs
  · rwa [hr] at hs

/-- An operation on a part of the state keeps to what is known of the part. -/
theorem Spec.on {part : s → p} {put : p → s → s} {r : Act ε p α} {st : s} {A : p → Prop} {B : α → p → Prop}
    {F : ε → p → Prop} (h : Spec A r B F) (hp : A (part st)) (hq : ∀ a x, B a x → Q a (put x st))
    (he : ∀ e x, F e x → E e (put x st)) : Spec (· = st) (Act.on part put r) Q E := by
  rintro _ rfl
  have hs := h _ hp
  unfold Act.on
  rcases hr : r (part _) with ⟨e | a, x⟩
  · rw [hr] at hs
    exact he _ _ hs
  · rw [hr] at hs
    exact hq _ _ hs

end Spec

/-- Whatever comes of it, the operation keeps `P`. -/
def Keeps (P : s → Prop) (r : Act ε s α) : Prop := ∀ st, P st → P (r st).2

section Keeps

variable {P : s → Prop}

/-- A specification that has the same of every end as of the beginning. -/
theorem Spec.keeps {r : Act ε s α} {Q : α → s → Prop} {E : ε → s → Prop} (h : Spec P r Q E)
    (hq : ∀ a st, Q a st → P st) (he : ∀ e st, E e st → P st) : Keeps P r := by
  intro st hst
  have hs := h st hst
  rcases hr : r st with ⟨_ | a, st'⟩
  · rw [hr] at hs
    exact he _ _ hs
  · rw [hr] at hs
    exact hq _ _ hs

theorem Keeps.spec {r : Act ε s α} (h : Keeps P r) : Spec P r (fun _ => P) fun _ => P := by
  intro st hst
  have hs := h st hst
  rcases hr : r st with ⟨_ | a, st'⟩
  · rwa [hr] at hs
  · rwa [hr] at hs

/-- What an operation keeps holds where it ended. -/
theorem Keeps.of_eq {r : Act ε s α} (h : Keeps P r) {st st' : s} {x : Except ε α} (hp : P st) (hr : r st = (x, st')) : P st' := by
  have := h st hp
  rwa [hr] at this

theorem Keeps.pure (a : α) : Keeps P (pure a : Act ε s α) := fun _ h => h

theorem Keeps.fail (e : ε) : Keeps P (fail e : Act ε s α) := fun _ h => h

theorem Keeps.ofExcept (x : Except ε α) : Keeps P (ofExcept x : Act ε s α) := fun _ h => h

/-- One operation after the other. -/
theorem Keeps.bind {r : Act ε s α} {k : α → Act ε s β} (h : Keeps P r) (hk : ∀ a, Keeps P (k a)) : Keeps P (r >>= k) :=
  (h.spec.bind fun a => (hk a).spec).keeps (fun _ _ h => h) fun _ _ h => h

/-- A look at the state changes nothing. -/
theorem Keeps.get {k : s → Act ε s α} (h : ∀ st, Keeps P (k st)) : Keeps P (Act.get >>= k) := fun st hst => h st st hst

theorem Keeps.attempt {r : Act ε s α} (h : Keeps P r) : Keeps P (Act.attempt r) := h

theorem Keeps.mapError {δ : Type} {r : Act ε s α} (h : Keeps P r) (f : ε → δ) : Keeps P (Act.mapError f r) := h

/-- An operation on a part of the state that keeps what is known of the part. -/
theorem Keeps.on {part : s → p} {put : p → s → s} {r : Act ε p α} {A : p → Prop} (h : Keeps A r)
    (hpart : ∀ st, P st → A (part st)) (hput : ∀ st x, P st → A x → P (put x st)) : Keeps P (Act.on part put r) :=
  fun st hst => hput st _ hst (h _ (hpart st hst))

end Keeps

/-- Where `r` ends with a value, `q` ends with the same one, and the states they leave are related as those they started from. -/
def Refines (R : s → t → Prop) (r : Act ε s α) (q : Act ε t α) : Prop :=
  ∀ st st₀, R st st₀ → ∀ a st', r st = (.ok a, st') → ∃ st₀', q st₀ = (.ok a, st₀') ∧ R st' st₀'

section Refines

variable {R : s → t → Prop}

theorem Refines.pure (a : α) : Refines R (pure a : Act ε s α) (pure a : Act ε t α) := by
  intro st st₀ hR a' st' h
  cases h
  exact ⟨st₀, rfl, hR⟩

theorem Refines.modify {f : s → s} {f₀ : t → t} (h : ∀ st st₀, R st st₀ → R (f st) (f₀ st₀)) :
    Refines R (modify f : Act ε s Unit) (modify f₀ : Act ε t Unit) := by
  intro st st₀ hR a' st' h'
  cases h'
  exact ⟨f₀ st₀, rfl, h st st₀ hR⟩

/-- One operation after the other. -/
theorem Refines.bind {r : Act ε s α} {q : Act ε t α} {k : α → Act ε s β} {l : α → Act ε t β} (h : Refines R r q)
    (hk : ∀ a, Refines R (k a) (l a)) : Refines R (r >>= k) (q >>= l) := by
  intro st st₀ hR b st'' hb
  obtain ⟨a, st', hr, hb⟩ := exists_of_bind_eq_ok hb
  obtain ⟨st₀', hq, hR'⟩ := h st st₀ hR a st' hr
  rw [bind_of_ok hq]
  exact hk a st' st₀' hR' b st'' hb

/-- What follows a look at the states may use that they are related. -/
theorem Refines.get {k : s → Act ε s α} {l : t → Act ε t α} (h : ∀ st st₀, R st st₀ → Refines R (k st) (l st₀)) :
    Refines R (Act.get >>= k) (Act.get >>= l) :=
  fun st st₀ hR => h st st₀ hR st st₀ hR

theorem Refines.mapError {δ : Type} {r : Act ε s α} {q : Act ε t α} (h : Refines R r q) (f : ε → δ) :
    Refines R (Act.mapError f r) (Act.mapError f q) := by
  intro st st₀ hR a st' ha
  rcases hr : r st with ⟨e | a', st''⟩
  · simp only [Act.mapError, hr] at ha
    cases ha
  · simp only [Act.mapError, hr] at ha
    cases ha
    obtain ⟨st₀', hq, hR'⟩ := h st st₀ hR _ _ hr
    refine ⟨st₀', ?_, hR'⟩
    simp only [Act.mapError, hq]
    rfl

/-- Operations on parts of the states that are related by `A`. -/
theorem Refines.on {p₀ : Type} {A : p → p₀ → Prop} {part : s → p} {put : p → s → s} {part₀ : t → p₀} {put₀ : p₀ → t → t}
    {r : Act ε p α} {q : Act ε p₀ α} (h : Refines A r q) (hpart : ∀ st st₀, R st st₀ → A (part st) (part₀ st₀))
    (hput : ∀ st st₀ x y, R st st₀ → A x y → R (put x st) (put₀ y st₀)) :
    Refines R (Act.on part put r) (Act.on part₀ put₀ q) := by
  intro st st₀ hR a st' ha
  rcases hr : r (part st) with ⟨e | a', x⟩
  · simp only [Act.on, hr] at ha
    cases ha
  · simp only [Act.on, hr] at ha
    cases ha
    obtain ⟨y, hq, hA⟩ := h _ _ (hpart st st₀ hR) _ x hr
    refine ⟨put₀ y st₀, ?_, hput st st₀ x y hR hA⟩
    simp only [Act.on, hq]

end Refines

/-- Results that are both values, related by `A`, or both the same error. -/
inductive Alike (A : α → β → Prop) : Except ε α → Except ε β → Prop where
  | ok {a : α} {b : β} : A a b → Alike A (.ok a) (.ok b)
  | error (e : ε) : Alike A (.error e) (.error e)

theorem Alike.refl (x : Except ε α) : Alike Eq x x := by
  cases x with
  | ok a => exact .ok rfl
  | error e => exact .error e

/-- Results that are alike in everything are equal. -/
theorem Alike.eq {x y : Except ε α} (h : Alike Eq x y) : x = y := by
  cases h with
  | ok hab => rw [hab]
  | error e => rfl

/-- Results that are alike up to a change of the value are equal after it. -/
theorem Alike.map_eq {F : α → β} {x : Except ε α} {y : Except ε β} (h : Alike (fun a b => b = F a) x y) : y = x.map F := by
  cases h with
  | ok hab =>
    rw [hab]
    rfl
  | error e => rfl

theorem Alike.mapError {δ : Type} {A : α → β → Prop} {x : Except ε α} {y : Except ε β} (h : Alike A x y) (f : ε → δ) :
    Alike A (x.mapError f) (y.mapError f) := by
  cases h with
  | ok hab => exact .ok hab
  | error e => exact .error (f e)

/-- On states related by `R` both operations end alike, with values related by `A`, and leave states that are related again. -/
def Mirrors (R : s → t → Prop) (A : α → β → Prop) (r : Act ε s α) (q : Act ε t β) : Prop :=
  ∀ st st₀, R st st₀ → Alike A (r st).1 (q st₀).1 ∧ R (r st).2 (q st₀).2

section Mirrors

variable {δ : Type} {R : s → t → Prop} {A : α → β → Prop} {r : Act ε s α} {q : Act ε t β}

/-- Values that are related by `A` may be known to be related by less. -/
theorem Mirrors.weaken {B : α → β → Prop} (h : Mirrors R A r q) (hA : ∀ a b, A a b → B a b) : Mirrors R B r q := by
  intro st st₀ hR
  obtain ⟨hx, hR'⟩ := h st st₀ hR
  refine ⟨?_, hR'⟩
  generalize (r st).1 = x, (q st₀).1 = y at hx
  cases hx with
  | ok hab => exact .ok (hA _ _ hab)
  | error e => exact .error e

theorem Mirrors.pure {a : α} {b : β} (h : A a b) : Mirrors R A (pure a : Act ε s α) (pure b : Act ε t β) :=
  fun _ _ hR => ⟨.ok h, hR⟩

theorem Mirrors.fail (e : ε) : Mirrors R A (fail e : Act ε s α) (fail e : Act ε t β) := fun _ _ hR => ⟨.error e, hR⟩

theorem Mirrors.ofExcept {x : Except ε α} {y : Except ε β} (h : Alike A x y) :
    Mirrors R A (ofExcept x : Act ε s α) (ofExcept y : Act ε t β) :=
  fun _ _ hR => ⟨h, hR⟩

theorem Mirrors.modify {f : s → s} {f₀ : t → t} (h : ∀ st st₀, R st st₀ → R (f st) (f₀ st₀)) :
    Mirrors R Eq (modify f : Act ε s Unit) (modify f₀ : Act ε t Unit) :=
  fun st st₀ hR => ⟨.ok rfl, h st st₀ hR⟩

/-- One operation after the other. -/
theorem Mirrors.bind {α₀ β₀ : Type} {B : α₀ → β₀ → Prop} {k : α → Act ε s α₀} {l : β → Act ε t β₀} (h : Mirrors R A r q)
    (hk : ∀ a b, A a b → Mirrors R B (k a) (l b)) : Mirrors R B (r >>= k) (q >>= l) := by
  intro st st₀ hR
  obtain ⟨hx, hR'⟩ := h st st₀ hR
  rcases hr : r st with ⟨x, st'⟩
  rcases hq : q st₀ with ⟨y, st₀'⟩
  rw [hr, hq] at hx hR'
  cases hx with
  | ok hab =>
    rw [bind_of_ok hr, bind_of_ok hq]
    exact hk _ _ hab st' st₀' hR'
  | error e =>
    rw [bind_of_error hr, bind_of_error hq]
    exact ⟨.error e, hR'⟩

/-- What follows a look at the states may use that they are related. -/
theorem Mirrors.get {k : s → Act ε s α} {l : t → Act ε t β} (h : ∀ st st₀, R st st₀ → Mirrors R A (k st) (l st₀)) :
    Mirrors R A (Act.get >>= k) (Act.get >>= l) :=
  fun st st₀ hR => h st st₀ hR st st₀ hR

/-- How two operations ended may be looked at on both sides. -/
theorem Mirrors.attempt (h : Mirrors R A r q) : Mirrors R (Alike A) (Act.attempt r) (Act.attempt q) :=
  fun st st₀ hR => ⟨.ok (h st st₀ hR).1, (h st st₀ hR).2⟩

theorem Mirrors.mapError (h : Mirrors R A r q) (f : ε → δ) : Mirrors R A (Act.mapError f r) (Act.mapError f q) :=
  fun st st₀ hR => ⟨(h st st₀ hR).1.mapError f, (h st st₀ hR).2⟩

/-- An operation is its own mirror image, and keeps on both sides what it keeps. -/
theorem Keeps.mirrors {P : s → Prop} (h : Keeps P r) : Mirrors (fun st st₀ => st₀ = st ∧ P st) Eq r r := by
  rintro st st₀ ⟨rfl, hp⟩
  exact ⟨Alike.refl _, rfl, h st₀ hp⟩

/-- Operations on parts of the states that are related by `P`. -/
theorem Mirrors.on {p₀ : Type} {P : p → p₀ → Prop} {part : s → p} {put : p → s → s} {part₀ : t → p₀} {put₀ : p₀ → t → t}
    {r : Act ε p α} {q : Act ε p₀ β} (h : Mirrors P A r q) (hpart : ∀ st st₀, R st st₀ → P (part st) (part₀ st₀))
    (hput : ∀ st st₀ x y, R st st₀ → P x y → R (put x st) (put₀ y st₀)) :
    Mirrors R A (Act.on part put r) (Act.on part₀ put₀ q) :=
  fun st st₀ hR => ⟨(h _ _ (hpart st st₀ hR)).1, hput st st₀ _ _ hR (h _ _ (hpart st st₀ hR)).2⟩

end Mirrors

/-! ## What operations append -/

/-- A property of outputs that nothing has, and two outputs have together that have it. -/
class Joins (T : List ω → Prop) : Prop where
  nil : T []
  append {ws us : List ω} : T ws → T us → T (ws ++ us)

/-- Whatever comes of the operation, it has appended something with `T` to the output that its states carry. -/
def Writes (out : s → List ω) (T : List ω → Prop) (r : Act ε s α) : Prop := ∀ st, ∃ ws, out (r st).2 = out st ++ ws ∧ T ws

section Writes

variable {out : s → List ω} {T : List ω → Prop} {r : Act ε s α}

theorem Writes.weaken {T' : List ω → Prop} (h : Writes out T r) (hT : ∀ ws, T ws → T' ws) : Writes out T' r := by
  intro st
  obtain ⟨ws, hout, hws⟩ := h st
  exact ⟨ws, hout, hT ws hws⟩

/-- What comes afterwards and leaves the output alone does not matter to it. -/
theorem out_bind {k : α → Act ε s β} (hk : ∀ a st, out (k a st).2 = out st) (st : s) : out ((r >>= k) st).2 = out (r st).2 := by
  rcases hr : r st with ⟨e | a, st'⟩
  · rw [bind_of_error hr]
  · rw [bind_of_ok hr]
    exact hk a st'

/-- What follows a look at the state may depend on it. -/
theorem Writes.get {k : s → Act ε s α} (h : ∀ st, Writes out T (k st)) : Writes out T (Act.get >>= k) := fun st => h st st

/-- What the errors of an operation are seen as does not matter. -/
theorem Writes.mapError {δ : Type} {f : ε → δ} (h : Writes out T r) : Writes out T (Act.mapError f r) := h

/-- An operation on the part of the state that carries the output. -/
theorem Writes.on {part : s → p} {put : p → s → s} {r : Act ε p α} {out' : p → List ω} (h : Writes out' T r)
    (hout : ∀ st, out st = out' (part st)) (hout' : ∀ st x, out (put x st) = out' x) : Writes out T (Act.on part put r) := by
  intro st
  obtain ⟨ws, hws, hT⟩ := h (part st)
  refine ⟨ws, (hout' st _).trans ?_, hT⟩
  rw [hws, hout]

variable [Joins T]

/-- An operation that leaves the output alone. -/
theorem Writes.nothing (hout : ∀ st, out (r st).2 = out st) : Writes out T r :=
  fun st => ⟨[], by rw [hout st, List.append_nil], Joins.nil⟩

theorem Writes.pure (a : α) : Writes out T (pure a : Act ε s α) := Writes.nothing fun _ => rfl

theorem Writes.fail (e : ε) : Writes out T (fail e : Act ε s α) := Writes.nothing fun _ => rfl

theorem Writes.ofExcept (x : Except ε α) : Writes out T (ofExcept x : Act ε s α) := Writes.nothing fun _ => rfl

/-- One operation after the other: what the second appends comes after what the first appends. -/
theorem Writes.bind {k : α → Act ε s β} (h : Writes out T r) (hk : ∀ a, Writes out T (k a)) : Writes out T (r >>= k) := by
  intro st
  obtain ⟨ws, hout, hws⟩ := h st
  rcases hr : r st with ⟨e | a, st'⟩
  · rw [hr] at hout
    rw [bind_of_error hr]
    exact ⟨ws, hout, hws⟩
  · rw [hr] at hout
    obtain ⟨us, hout', hus⟩ := hk a st'
    rw [bind_of_ok hr]
    exact ⟨ws ++ us, by rw [hout', hout, List.append_assoc], Joins.append hws hus⟩

end Writes

end Lineage.Act
