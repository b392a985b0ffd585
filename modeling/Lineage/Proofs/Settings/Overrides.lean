import Lineage.Settings
import Lineage.Proofs.Act
import Lineage.Proofs.Text.Values

/-!
# Overrides by the environment

A variable of the environment is not set, `Gives` a value, or is `Garbled`. An override is all or nothing: the value is stored in its
field, or the variable is garbled and the settings stay as they are. Both overrides one after the other are not. If both variables can
be read, both are in effect, `InEffect`; if one is garbled, the settings are `Refused`, and of these two the second comes too late to
leave them as they were: the value of the first is stored by then. Settings that are handed out as a value do not show this, because a
refusal hands out none.
-/

namespace Lineage.Settings

open Text (Trims WritesBool WritesWord)

/-! ## One variable -/

section Variable

variable {α : Type} {environment : Environment} {name text : String} {a b : α} {Writes : String → α → Prop}
  {read : String → Option α} {s s' : Settings} {e : SettingsProblem}

/-- A variable is set to a text in which blanks surround one that writes a value. -/
def Gives (environment : Environment) (name : String) (Writes : String → α → Prop) (a : α) : Prop :=
  ∃ text core, environment name = some text ∧ Trims text core ∧ Writes core a

/-- A variable is set to a text in which blanks surround one that writes no value. -/
def Garbled (environment : Environment) (name : String) (Writes : String → α → Prop) (text : String) : Prop :=
  environment name = some text ∧ ∀ core a, Trims text core → ¬ Writes core a

/-- What a field holds when the variable of its override was looked at: the value that the variable gives, or what it held before if
the variable is not set. -/
def Puts (environment : Environment) (name : String) (Writes : String → α → Prop) (before after : α) : Prop :=
  (environment name = none ∧ after = before) ∨ Gives environment name Writes after

theorem Gives.not_garbled (h : Gives environment name Writes a) : ¬ Garbled environment name Writes text := by
  rintro ⟨hset, hnot⟩
  obtain ⟨_, core, hset', htrims, hwrites⟩ := h
  cases hset.symm.trans hset'
  exact hnot core a htrims hwrites

theorem Puts.not_garbled (h : Puts environment name Writes a b) : ¬ Garbled environment name Writes text := by
  rcases h with ⟨hunset, -⟩ | hgives
  · rintro ⟨hset, -⟩
    cases hunset.symm.trans hset
  · exact hgives.not_garbled

theorem override_eq_none_iff : override environment name read = .ok none ↔ environment name = none := by
  rw [override]
  cases environment name with
  | none => simp
  | some text => cases hr : read (Text.trim text) <;> simp [hr]

variable (hread : ∀ text a, read text = some a ↔ Writes text a)
include hread

theorem override_eq_some_iff : override environment name read = .ok (some a) ↔ Gives environment name Writes a := by
  rw [override, Gives]
  cases environment name with
  | none => simp
  | some text =>
    have hcore : (∃ core, Trims text core ∧ Writes core a) ↔ read (Text.trim text) = some a := by
      simp only [← Text.trim_eq_iff, exists_eq_left', hread]
    simp only [Option.some.injEq, exists_and_left, exists_eq_left', hcore]
    cases read (Text.trim text) <;> simp

theorem override_eq_error_iff : override environment name read = .error e ↔
    ∃ text, Garbled environment name Writes text ∧ e = .badOverride text name := by
  simp only [override, Garbled]
  cases environment name with
  | none => simp
  | some text =>
    have hcore : (∀ core a, Trims text core → ¬ Writes core a) ↔ read (Text.trim text) = none := by
      simp only [← Text.trim_eq_iff, ← hread, Option.eq_none_iff_forall_ne_some, ne_eq]
      exact ⟨fun h a => h _ a rfl, fun h _ a hcore => hcore ▸ h a⟩
    simp only [Option.some.injEq, and_assoc, exists_eq_left', hcore]
    cases read (Text.trim text) <;> simp [eq_comm]

theorem Gives.unique (ha : Gives environment name Writes a) (hb : Gives environment name Writes b) : a = b := by
  have hab := ((override_eq_some_iff hread).2 ha).symm.trans ((override_eq_some_iff hread).2 hb)
  exact Option.some.inj (Except.ok.inj hab)

variable {field : CacheSettings → α} {put : α → CacheSettings → CacheSettings}

/-- An override that is not refused stores what its variable gives, and nothing else. -/
theorem applyOverride_eq_ok_iff (hput : ∀ c, put (field c) c = c) : applyOverride environment name read put s = (.ok (), s') ↔
    ∃ a, Puts environment name Writes (field s.cache) a ∧ s' = { s with cache := put a s.cache } := by
  have hok : applyOverride environment name read put s = (.ok (), s') ↔
      (override environment name read = .ok none ∧ s' = s) ∨
        ∃ a, override environment name read = .ok (some a) ∧ s' = { s with cache := put a s.cache } := by
    rw [applyOverride, Act.bind_apply, Act.ofExcept]
    rcases override environment name read with e | _ | a <;> simp [eq_comm]
  simp only [hok, override_eq_none_iff, override_eq_some_iff hread]
  constructor
  · rintro (⟨hunset, rfl⟩ | ⟨a, hgives, hs⟩)
    · exact ⟨_, .inl ⟨hunset, rfl⟩, by rw [hput]⟩
    · exact ⟨a, .inr hgives, hs⟩
  · rintro ⟨a, ⟨hunset, rfl⟩ | hgives, rfl⟩
    · exact .inl ⟨hunset, by rw [hput]⟩
    · exact .inr ⟨a, hgives, rfl⟩

/-- An override that is refused leaves the settings as they are and names its variable. -/
theorem applyOverride_eq_error_iff : applyOverride environment name read put s = (.error e, s') ↔
    ∃ text, Garbled environment name Writes text ∧ e = .badOverride text name ∧ s' = s := by
  have herror : applyOverride environment name read put s = (.error e, s') ↔
      override environment name read = .error e ∧ s' = s := by
    rw [applyOverride, Act.bind_apply, Act.ofExcept]
    rcases override environment name read with e' | _ | a <;> simp [eq_comm]
  simp only [herror, override_eq_error_iff hread, ← exists_and_right, and_assoc]

end Variable

/-! ## Both variables -/

variable {environment : Environment} {s s' : Settings} {e : SettingsProblem}

/-- The settings with what both variables give. -/
structure InEffect (environment : Environment) (before after : Settings) : Prop where
  enabled : Puts environment enabledVariable WritesBool before.cache.enabled after.cache.enabled
  maxSize : Puts environment maxSizeVariable WritesWord before.cache.maxSize after.cache.maxSize
  profile : after.profile = before.profile

/-- How overrides are refused, and the settings that this leaves: the first garbled variable is named with its text as it is, and what
was stored before it was looked at stays. -/
inductive Refused (environment : Environment) (s : Settings) : SettingsProblem → Settings → Prop where
  | enabled {text : String} : Garbled environment enabledVariable WritesBool text →
      Refused environment s (.badOverride text enabledVariable) s
  | maxSize {enabled : Bool} {text : String} : Puts environment enabledVariable WritesBool s.cache.enabled enabled →
      Garbled environment maxSizeVariable WritesWord text →
      Refused environment s (.badOverride text maxSizeVariable) { s with cache := { s.cache with enabled } }

theorem enabled_stored_iff :
    applyOverride environment enabledVariable Text.bool? (fun enabled c => { c with enabled }) s = (.ok (), s') ↔
      ∃ enabled, Puts environment enabledVariable WritesBool s.cache.enabled enabled ∧
        s' = { s with cache := { s.cache with enabled } } :=
  applyOverride_eq_ok_iff (fun _ _ => Text.bool?_eq_some_iff) fun _ => rfl

theorem maxSize_stored_iff :
    applyOverride environment maxSizeVariable Text.word? (fun maxSize c => { c with maxSize }) s = (.ok (), s') ↔
      ∃ maxSize, Puts environment maxSizeVariable WritesWord s.cache.maxSize maxSize ∧
        s' = { s with cache := { s.cache with maxSize } } :=
  applyOverride_eq_ok_iff (fun _ _ => Text.word?_eq_some_iff) fun _ => rfl

theorem applyOverrides_eq_ok_iff : applyOverrides environment s = (.ok (), s') ↔ InEffect environment s s' := by
  constructor
  · intro h
    obtain ⟨⟨⟩, s₁, hfirst, hsecond⟩ := Act.exists_of_bind_eq_ok h
    obtain ⟨enabled, henabled, rfl⟩ := enabled_stored_iff.1 hfirst
    obtain ⟨maxSize, hmaxSize, rfl⟩ := maxSize_stored_iff.1 hsecond
    exact ⟨henabled, hmaxSize, rfl⟩
  · rintro ⟨henabled, hmaxSize, hprofile⟩
    refine (Act.bind_of_ok (enabled_stored_iff.2 ⟨_, henabled, rfl⟩)).trans ?_
    refine maxSize_stored_iff.2 ⟨_, hmaxSize, ?_⟩
    rw [← hprofile]

theorem applyOverrides_eq_error_iff : applyOverrides environment s = (.error e, s') ↔ Refused environment s e s' := by
  rw [applyOverrides, Act.bind_eq_error_iff, applyOverride_eq_error_iff fun _ _ => Text.bool?_eq_some_iff]
  constructor
  · rintro (⟨text, hgarbled, rfl, rfl⟩ | ⟨⟨⟩, s₁, hfirst, hsecond⟩)
    · exact .enabled hgarbled
    · obtain ⟨enabled, henabled, rfl⟩ := enabled_stored_iff.1 hfirst
      obtain ⟨text, hgarbled, rfl, rfl⟩ := (applyOverride_eq_error_iff fun _ _ => Text.word?_eq_some_iff).1 hsecond
      exact .maxSize henabled hgarbled
  · rintro (hgarbled | ⟨henabled, hgarbled⟩)
    · exact Or.inl ⟨_, hgarbled, rfl, rfl⟩
    · exact Or.inr ⟨(), _, enabled_stored_iff.2 ⟨_, henabled, rfl⟩,
        (applyOverride_eq_error_iff fun _ _ => Text.word?_eq_some_iff).2 ⟨_, hgarbled, rfl, rfl⟩⟩

/-- Refused overrides leave the settings as they were unless the cache was switched over before the refusal. -/
theorem Refused.eq_iff (h : Refused environment s e s') :
    s' = s ↔ ∀ enabled, Gives environment enabledVariable WritesBool enabled → enabled = s.cache.enabled := by
  cases h with
  | enabled hgarbled => exact ⟨fun _ _ hgives => absurd hgarbled hgives.not_garbled, fun _ => rfl⟩
  | @maxSize enabled _ hputs _ =>
    -- the switch was stored by then, which shows unless it was stored as it was
    have hs : ({ s with cache := { s.cache with enabled } } : Settings) = s ↔ enabled = s.cache.enabled :=
      ⟨fun h => congrArg (·.cache.enabled) h, fun h => by rw [h]⟩
    rw [hs]
    rcases hputs with ⟨hunset, rfl⟩ | hgives
    · refine ⟨fun _ b hb => ?_, fun _ => rfl⟩
      obtain ⟨_, _, hset, -⟩ := hb
      cases hunset.symm.trans hset
    · exact ⟨fun h b hb => (hb.unique (fun _ _ => Text.bool?_eq_some_iff) hgives).trans h, fun h => h enabled hgives⟩

/-- Overrides succeed exactly if neither variable is garbled. -/
theorem exists_inEffect_iff : (∃ s', InEffect environment s s') ↔
    ∀ text, ¬ Garbled environment enabledVariable WritesBool text ∧ ¬ Garbled environment maxSizeVariable WritesWord text := by
  constructor
  · rintro ⟨s', h⟩ text
    exact ⟨h.enabled.not_garbled, h.maxSize.not_garbled⟩
  · intro h
    rcases hr : applyOverrides environment s with ⟨e | ⟨⟩, s'⟩
    · cases applyOverrides_eq_error_iff.1 hr with
      | enabled hgarbled => exact absurd hgarbled (h _).1
      | maxSize _ hgarbled => exact absurd hgarbled (h _).2
    · exact ⟨s', applyOverrides_eq_ok_iff.1 hr⟩

/-- What becomes of overrides, of any settings and in any environment. They succeed exactly if neither variable is garbled, and then
every variable that is set has its value stored and nothing else has changed. They fail with the first variable that is garbled, and
then nothing has changed but the switch of the cache, if its variable is not the one that is garbled. So a failure leaves the settings
as they were exactly if the variable of the switch gives no value other than the one that was there. -/
theorem overrides_in_turn (environment : Environment) (s : Settings) :
    ((∃ s', applyOverrides environment s = (.ok (), s')) ↔
      ∀ text, ¬ Garbled environment enabledVariable WritesBool text ∧ ¬ Garbled environment maxSizeVariable WritesWord text) ∧
    (∀ s', applyOverrides environment s = (.ok (), s') ↔ InEffect environment s s') ∧
    (∀ e s', applyOverrides environment s = (.error e, s') ↔ Refused environment s e s') ∧
    ∀ e s', applyOverrides environment s = (.error e, s') →
      (s' = s ↔ ∀ enabled, Gives environment enabledVariable WritesBool enabled → enabled = s.cache.enabled) := by
  refine ⟨?_, fun s' => applyOverrides_eq_ok_iff, fun e s' => applyOverrides_eq_error_iff, fun e s' hr => ?_⟩
  · rw [← exists_inEffect_iff (s := s)]
    exact exists_congr fun s' => applyOverrides_eq_ok_iff
  · exact (applyOverrides_eq_error_iff.1 hr).eq_iff

/-- The switch is read between a wide space and the end of a line. The number behind it has a sign, which is fine, and is the first one
that is not a word: when this is noticed, the cache is switched off. -/
theorem overrides_in_turn_too_late :
    let environment : Environment := fun name =>
      if name = enabledVariable then some "\u2003false\n" else some "+18446744073709551616"
    applyOverrides environment {} =
      (.error (.badOverride "+18446744073709551616" maxSizeVariable), { cache := { enabled := false } }) ∧
    ∃ enabled, Gives environment enabledVariable WritesBool enabled ∧ enabled ≠ true := by
  intro environment
  have hr : applyOverrides environment {} =
      (.error (.badOverride "+18446744073709551616" maxSizeVariable), { cache := { enabled := false } }) := by decide
  have hkept := (overrides_in_turn environment {}).2.2.2 _ _ hr
  refine ⟨hr, by_contra fun hnone => ?_⟩
  exact absurd (hkept.2 fun enabled hgives => by_contra fun hne => hnone ⟨enabled, hgives, hne⟩) (by decide)

/-- Overrides that fail are not always without effect: here the default settings end with the cache switched off. -/
theorem not_all_or_nothing :
    let environment : Environment := fun name =>
      if name = enabledVariable then some "false" else if name = maxSizeVariable then some "lots" else none
    let s : Settings := {}
    ∃ s', applyOverrides environment s = (.error (.badOverride "lots" maxSizeVariable), s') ∧
      s'.cache.enabled = false ∧ s' ≠ s :=
  ⟨{ cache := { enabled := false } }, by decide, rfl, by decide⟩

/-! ## Settings that are handed out -/

theorem overridden_eq_ok_iff : overridden s environment = .ok s' ↔ InEffect environment s s' := by
  rw [← applyOverrides_eq_ok_iff, overridden]
  rcases applyOverrides environment s with ⟨_ | ⟨⟩, s₁⟩ <;> simp

/-- A program that has loaded its settings has all of the overrides: those of the default settings if it names no file, and else those
of what the file describes. -/
theorem load_eq_ok_iff {read : String → Except String String} {path : Option String} :
    load read path environment = .ok s' ↔
      ∃ s, InEffect environment s s' ∧
        match path with
        | none => s = {}
        | some path => ∃ text, read path = .ok text ∧ ofText text = .ok s := by
  cases path with
  | none => simp [load, overridden_eq_ok_iff]
  | some path =>
    rw [load]
    rcases hfile : read path with cause | text
    · simp [hfile, Except.mapError, bind, Except.bind]
    · rcases hsettings : ofText text with e | s
      · simp [hfile, hsettings, Except.mapError, bind, Except.bind]
      · simp [hfile, hsettings, Except.mapError, bind, Except.bind, overridden_eq_ok_iff]

end Lineage.Settings
