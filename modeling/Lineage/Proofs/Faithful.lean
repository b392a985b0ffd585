import Lineage.Context
import Lineage.Proofs.Act
import Lineage.Proofs.Ancestry

/-!
# Faithful contexts

Sources agree with an ancestry when every answer they ever give is the one of the ancestry; whether they may fail as well is left open.
A cache holds an ancestry when every kept answer, of whatever user, is the one of the ancestry. A context is faithful when both hold,
and everything that is done with it keeps it so: `parents_spec` says that the answer of a faithful context is that of the ancestry,
whether it was kept or asked for, and that it fails only if its sources may.
-/

namespace Lineage

namespace Sources

variable {σ : Type} [Sources σ]

/-- The states into which sources get by being asked. -/
inductive Leads : σ → σ → Prop where
  | refl (s : σ) : Leads s s
  | ask {s s' : σ} (category : Category) (t : Token) : Leads s s' → Leads s (Sources.ask category t s').2

/-- Every answer that the sources ever give is that of the ancestry. They may fail. -/
def Agree (f : Ancestry) (s : σ) : Prop :=
  ∀ s', Leads s s' → ∀ category t a, (Sources.ask category t s').1 = .ok a → a = f category t.identity

/-- The sources never fail. -/
def Answering (s : σ) : Prop := ∀ s', Leads s s' → ∀ category t, ∃ a, (Sources.ask category t s').1 = .ok a

theorem Leads.trans {a b c : σ} (h : Leads a b) (h' : Leads b c) : Leads a c := by
  induction h' with
  | refl => exact h
  | ask category t _ ih => exact Leads.ask category t ih

/-- One question leads on. -/
theorem leads_ask (category : Category) (t : Token) (s : σ) : Leads s (Sources.ask category t s).2 :=
  Leads.ask category t (Leads.refl s)

theorem Agree.leads {f : Ancestry} {s s' : σ} (h : Agree f s) (hl : Leads s s') : Agree f s' :=
  fun s'' hl' => h s'' (hl.trans hl')

theorem Answering.leads {s s' : σ} (h : Answering s) (hl : Leads s s') : Answering s' :=
  fun s'' hl' => h s'' (hl.trans hl')

/-- An ancestry that is asked stays as it is. -/
theorem eq_of_leads {f g : Ancestry} (h : Leads f g) : g = f := by
  induction h with
  | refl => rfl
  | ask category t _ ih => exact ih

end Sources

/-- An ancestry agrees with itself. -/
theorem Ancestry.agree (f : Ancestry) : Sources.Agree f f := by
  intro g hg category t a ha
  rw [Sources.eq_of_leads hg] at ha
  exact (Except.ok.inj ha).symm

/-- An ancestry never fails. -/
theorem Ancestry.answering (f : Ancestry) : Sources.Answering f := fun _ _ _ _ => ⟨_, rfl⟩

namespace Cache

/-! ## What all kept answers have in common -/

/-- Every kept answer is as `Q` says of its branch, its key and its entry. -/
def Every (Q : Branch → Key → Entry → Prop) (c : Cache) : Prop :=
  ∀ b k e, (c.shelf b).entries.find? k = some e → Q b k e

variable {f : Ancestry} {c : Cache} {Q : Branch → Key → Entry → Prop}

/-- A cache with nothing in it has nothing in it that is not as `Q` says. -/
theorem every_new (Q : Branch → Key → Entry → Prop) (settings : CacheSettings) : (Cache.new settings).Every Q := by
  intro b k e he
  cases b <;> simp [Cache.new, shelf, Shelf.empty] at he

theorem every_clear (Q : Branch → Key → Entry → Prop) (c : Cache) : c.clear.Every Q := by
  intro b k e he
  cases b <;> simp [Cache.clear, shelf] at he

/-- A cache with a shelf exchanged has what it had if the new shelf does. -/
theorem Every.withShelf (h : c.Every Q) {b : Branch} {s : Shelf}
    (hs : ∀ k e, s.entries.find? k = some e → Q b k e) : (c.withShelf b s).Every Q := by
  intro b' k e he
  rw [shelf_withShelf] at he
  split at he
  · next hb =>
    rw [hb]
    exact hs k e he
  · exact h b' k e he

/-- Looking up changes no answer. -/
theorem Every.lookup (h : c.Every Q) (b : Branch) (scope : Scope) (t : Token) : (c.lookup b scope t).2.Every Q := by
  unfold Cache.lookup
  split
  · exact h
  · refine h.withShelf fun k e he => h b k e ?_
    unfold Shelf.count at he
    split at he <;> exact he

/-- Whoever has answers looked up is a user, and the cache is used. -/
theorem userFor_eq_some {scope : Scope} {user : String} (h : c.userFor scope = some user) :
    c.settings.enabled = true ∧ scope = some user := by
  unfold userFor at h
  split at h
  · next he => exact ⟨he, h⟩
  · cases h

/-- What is found is kept for the user and the identity that were asked about. -/
theorem exists_of_lookup {b : Branch} {scope : Scope} {t : Token} {e : Entry} (he : (c.lookup b scope t).1 = some e) :
    ∃ user, c.userFor scope = some user ∧ (c.shelf b).entries.find? ⟨user, t.identity⟩ = some e := by
  unfold Cache.lookup at he
  split at he
  · cases he
  · next user hu => exact ⟨user, hu, he⟩

/-- A shelf that is given an answer has no answers but its old ones and the new one, and it has some only if it may. -/
theorem Shelf.find?_keep {s : Shelf} {maxSize : Nat} {k j : Key} {e e' : Entry}
    (h : (s.keep maxSize k e).1.entries.find? j = some e') :
    0 < maxSize ∧ (s.entries.find? j = some e' ∨ (j = k ∧ e' = e)) := by
  unfold Shelf.keep at h
  dsimp only at h
  split at h
  · simp at h
  · next hle =>
    refine ⟨Nat.lt_of_lt_of_le (List.length_pos_of_mem (Table.mem_of_find? h)) (Nat.le_of_not_lt hle), ?_⟩
    rw [Table.find?_insertNew] at h
    split at h
    · next hj =>
      subst hj
      cases hf : s.entries.find? j with
      | none =>
        rw [hf] at h
        exact Or.inr ⟨rfl, (Option.some.inj h).symm⟩
      | some e₀ =>
        rw [hf] at h
        exact Or.inl h
    · exact Or.inl h

/-- An answer that is as `Q` says may be kept, also when the shelf overflows. -/
theorem Every.add (h : c.Every Q) {b : Branch} {scope : Scope} {t : Token} {a : Answer}
    (hq : ∀ user, c.userFor scope = some user → 0 < c.settings.maxSize → Q b ⟨user, t.identity⟩ ⟨t, a⟩) :
    (c.add b scope t a).1.Every Q := by
  unfold Cache.add
  split
  · exact h
  · next user hu =>
    refine h.withShelf fun k e he => ?_
    obtain ⟨hroom, he | ⟨rfl, rfl⟩⟩ := Shelf.find?_keep he
    · exact h b k e he
    · exact hq user hu hroom

/-! ## Answers of an ancestry -/

/-- Every kept answer is that of the ancestry. -/
def Holds (f : Ancestry) (c : Cache) : Prop :=
  ∀ b k e, (c.shelf b).entries.find? k = some e → e.parents = f.onBranch b k.identity

/-- What holds an ancestry is true of every kept answer alone. -/
theorem holds_iff : c.Holds f ↔ c.Every fun b k e => e.parents = f.onBranch b k.identity := Iff.rfl

/-- A cache with nothing in it holds any ancestry. -/
theorem holds_new (f : Ancestry) (settings : CacheSettings) : (Cache.new settings).Holds f := every_new _ settings

theorem holds_clear (f : Ancestry) (c : Cache) : c.clear.Holds f := every_clear _ c

/-- Looking up changes no answer. -/
theorem Holds.lookup (h : c.Holds f) (b : Branch) (scope : Scope) (t : Token) : (c.lookup b scope t).2.Holds f :=
  (holds_iff.1 h).lookup b scope t

/-- What is found is the answer of the ancestry. -/
theorem Holds.parents_lookup (h : c.Holds f) {b : Branch} {scope : Scope} {t : Token} {e : Entry}
    (he : (c.lookup b scope t).1 = some e) : e.parents = f.onBranch b t.identity := by
  obtain ⟨user, -, hfind⟩ := exists_of_lookup he
  exact h b ⟨user, t.identity⟩ e hfind

/-- Keeping an answer of the ancestry keeps the cache true to it. -/
theorem Holds.add (h : c.Holds f) (b : Branch) (scope : Scope) (t : Token) :
    (c.add b scope t (f.onBranch b t.identity)).1.Holds f :=
  (holds_iff.1 h).add fun _ _ _ => rfl

end Cache

namespace Context

section Effects

variable {σ : Type}

/-- A lookup of a context is one of its cache. -/
theorem lookup_effect (b : Branch) (scope : Scope) (t : Token) (c : Context σ) :
    Act.Spec (· = c) (lookup b scope t) (fun found c' => found = (c.cache.lookup b scope t).1 ∧
      c'.cache = (c.cache.lookup b scope t).2 ∧ c'.sources = c.sources) fun _ _ => False := by
  intro c' hc'
  rw [hc']
  unfold lookup
  cases c.cache.userFor scope with
  | none => exact ⟨rfl, rfl, rfl⟩
  | some user => exact ⟨rfl, rfl, rfl⟩

/-- What a context keeps, its cache keeps. -/
theorem keep_effect (b : Branch) (scope : Scope) (t : Token) (a : Answer) (c : Context σ) :
    Act.Spec (· = c) (keep b scope t a)
      (fun _ c' => c'.cache = (c.cache.add b scope t a).1 ∧ c'.sources = c.sources) fun _ _ => False := by
  intro c' hc'
  rw [hc']
  unfold keep
  rcases c.cache.add b scope t a with ⟨cache, _ | dropped⟩
  · exact ⟨rfl, rfl⟩
  · exact ⟨rfl, rfl⟩

end Effects

variable {σ : Type} [Sources σ]

/-- All that the context says or keeps is said by the ancestry, and if `total` its sources never fail. -/
structure Faithful (f : Ancestry) (total : Prop) (c : Context σ) : Prop where
  agree : Sources.Agree f c.sources
  holds : c.cache.Holds f
  answering : total → Sources.Answering c.sources

/-- A context of sources that agree with an ancestry and never fail, whose cache holds only their answers. -/
abbrev Stable (f : Ancestry) (c : Context σ) : Prop := c.Faithful f True

variable {f : Ancestry} {total : Prop} {c : Context σ}

/-- A context with an empty cache is as faithful as its sources. -/
theorem faithful_new {sources : σ} (settings : CacheSettings) (h : Sources.Agree f sources)
    (ht : total → Sources.Answering sources) : (Context.new sources settings).Faithful f total :=
  ⟨h, Cache.holds_new f settings, ht⟩

/-- The ancestry itself without a cache, the context that others are measured against. -/
def ideal (f : Ancestry) : Context Ancestry := Context.new f .disabled

theorem stable_ideal (f : Ancestry) : (ideal f).Stable f := faithful_new _ f.agree fun _ => f.answering

/-- What is logged does not matter. -/
theorem Faithful.log (h : c.Faithful f total) (log : Array Log.Event) : Faithful f total { c with log } :=
  ⟨h.agree, h.holds, h.answering⟩

/-- Sources that were asked are as faithful as before. -/
theorem Faithful.leads (h : c.Faithful f total) {sources : σ} (hl : Sources.Leads c.sources sources) :
    Faithful f total { c with sources } :=
  ⟨h.agree.leads hl, h.holds, fun ht => (h.answering ht).leads hl⟩

theorem Faithful.cache (h : c.Faithful f total) {cache : Cache} (hc : cache.Holds f) :
    Faithful f total { c with cache } :=
  ⟨h.agree, hc, h.answering⟩

/-- The end of an operation that gives `a` if the context is faithful, and fails only if the sources may. -/
abbrev Gives {α : Type} (f : Ancestry) (total : Prop) (r : Run (Context σ) α) (a : α) : Prop :=
  Act.Spec (Faithful f total) r (fun x c => x = a ∧ c.Faithful f total) (fun _ c => c.Faithful f total ∧ ¬total)

/-- An operation that is logged ends as it does without the log, from where the event of its start leaves it. What is known of its ends
must not depend on the log. -/
theorem loggedBy_spec_of_start {s α : Type} {emit : Log.Event → Run s Unit} {P₀ P : s → Prop} {Q : α → s → Prop}
    {E : Error → s → Prop} {r : Run s α} (h : Act.Spec P r Q E) {target op : String}
    {fields : List (String × Log.Value)} {onSuccess : α → List (String × Log.Value)}
    {onFailure : List (String × Log.Value)}
    (hstart : Act.Spec P₀ (emit (Log.started target op fields)) (fun _ => P) fun _ _ => False)
    (hQ : ∀ a e, Act.Spec (Q a) (emit e) (fun _ => Q a) fun _ _ => False)
    (hE : ∀ x e, Act.Spec (E x) (emit e) (fun _ => E x) fun _ _ => False) :
    Act.Spec P₀ (loggedBy emit target op fields onSuccess onFailure r) Q E := by
  refine hstart.never.bind fun _ => h.attempt.never.bind fun x => ?_
  cases x with
  | ok a => exact (hQ a _).never.bind fun _ => Act.Spec.pure fun _ hq => hq
  | error e => exact (hE e _).never.bind fun _ => Act.Spec.fail fun _ he => he

/-- Logging an operation changes nothing about how it ends, if what is known before and after it does not depend on the log. -/
theorem loggedBy_spec {s α : Type} {emit : Log.Event → Run s Unit} {P : s → Prop} {Q : α → s → Prop}
    {E : Error → s → Prop} {r : Run s α} (h : Act.Spec P r Q E) {target op : String}
    {fields : List (String × Log.Value)} {onSuccess : α → List (String × Log.Value)}
    {onFailure : List (String × Log.Value)}
    (hP : ∀ e, Act.Spec P (emit e) (fun _ => P) fun _ _ => False)
    (hQ : ∀ a e, Act.Spec (Q a) (emit e) (fun _ => Q a) fun _ _ => False)
    (hE : ∀ x e, Act.Spec (E x) (emit e) (fun _ => E x) fun _ _ => False) :
    Act.Spec P (loggedBy emit target op fields onSuccess onFailure r) Q E :=
  loggedBy_spec_of_start h (hP _) hQ hE

/-- What is given keeps the context faithful. -/
theorem keeps_of_gives {α : Type} {r : Run (Context σ) α} {a : α} (h : Gives f total r a) :
    Act.Keeps (Faithful f total) r :=
  h.keeps (fun _ _ h => h.2) fun _ _ h => h.1

/-- An operation that is logged keeps what it keeps without the log. -/
theorem keeps_loggedBy {s α : Type} {emit : Log.Event → Run s Unit} {P : s → Prop} {r : Run s α} (h : Act.Keeps P r)
    (hemit : ∀ e, Act.Keeps P (emit e)) {target op : String} {fields : List (String × Log.Value)}
    {onSuccess : α → List (String × Log.Value)} {onFailure : List (String × Log.Value)} :
    Act.Keeps P (loggedBy emit target op fields onSuccess onFailure r) := by
  refine (hemit _).bind fun _ => h.attempt.bind fun x => ?_
  cases x with
  | ok a => exact (hemit _).bind fun _ => Act.Keeps.pure a
  | error e => exact (hemit _).bind fun _ => Act.Keeps.fail e

theorem emit_spec (e : Log.Event) : Gives f total (emit e : Run (Context σ) Unit) () :=
  Act.Spec.modify fun _ h => ⟨rfl, h.log _⟩

theorem flush_spec : Gives f total (flush : Run (Context σ) Unit) () :=
  Act.Spec.modify fun _ h => ⟨rfl, h.cache (Cache.holds_clear f _)⟩

/-- One question is answered as the ancestry says. -/
theorem ask_spec (category : Category) (t : Token) :
    Gives f total (ask category t : Run (Context σ) Answer) (f category t.identity) := by
  intro c hc
  have hl : Sources.Leads c.sources (Sources.ask category t c.sources).2 := Sources.leads_ask category t c.sources
  unfold ask
  rcases hr : Sources.ask category t c.sources with ⟨e | a, sources⟩
  · rw [hr] at hl
    refine ⟨hc.leads hl, fun ht => ?_⟩
    obtain ⟨a, ha⟩ := hc.answering ht c.sources (Sources.Leads.refl _) category t
    rw [hr] at ha
    cases ha
  · rw [hr] at hl
    refine ⟨hc.agree c.sources (Sources.Leads.refl _) category t a ?_, hc.leads hl⟩
    rw [hr]

/-- The auxiliary and the hooking answer are merged as the ancestry says. -/
theorem askMerged_spec (t : Token) :
    Gives f total (askMerged t : Run (Context σ) Answer) (f.onBranch .hooked t.identity) := by
  refine (ask_spec .auxiliary t).bind fun a => Act.Spec.given fun ha => ?_
  refine (ask_spec .hooking t).bind fun b => Act.Spec.given fun hb => ?_
  refine Act.Spec.pure fun c hc => ⟨?_, hc⟩
  rw [ha, hb]
  rfl

theorem askBranch_spec (b : Branch) (t : Token) :
    Gives f total (askBranch b t : Run (Context σ) Answer) (f.onBranch b t.identity) := by
  cases b with
  | native => exact ask_spec .native t
  | hooked => exact askMerged_spec t

/-- A lookup finds nothing but answers of the ancestry. -/
theorem lookup_spec (b : Branch) (scope : Scope) (t : Token) :
    Act.Spec (Faithful f total) (lookup b scope t : Run (Context σ) (Option Cache.Entry))
      (fun found c => (∀ e, found = some e → e.parents = f.onBranch b t.identity) ∧ c.Faithful f total)
      (fun _ _ => False) := by
  intro c hc
  refine (lookup_effect b scope t c).weaken (fun _ h => h) (fun found c' hc' => ?_) (fun _ _ h => h) c rfl
  obtain ⟨hfound, hcache, hsources⟩ := hc'
  refine ⟨fun e he => hc.holds.parents_lookup (hfound.symm.trans he), ?_, ?_, ?_⟩
  · rw [hsources]
    exact hc.agree
  · rw [hcache]
    exact hc.holds.lookup b scope t
  · rw [hsources]
    exact hc.answering

/-- What the ancestry says may be kept. -/
theorem keep_spec (b : Branch) (scope : Scope) (t : Token) :
    Act.Spec (Faithful f total) (keep b scope t (f.onBranch b t.identity) : Run (Context σ) Unit)
      (fun _ c => c.Faithful f total) (fun _ _ => False) := by
  intro c hc
  refine (keep_effect b scope t _ c).weaken (fun _ h => h) (fun _ c' hc' => ?_) (fun _ _ h => h) c rfl
  obtain ⟨hcache, hsources⟩ := hc'
  refine ⟨?_, ?_, ?_⟩
  · rw [hsources]
    exact hc.agree
  · rw [hcache]
    exact hc.holds.add b scope t
  · rw [hsources]
    exact hc.answering

/-- A faithful context answers as the ancestry does, from its cache or from its sources. -/
theorem parents_spec (scope : Scope) (b : Branch) (t : Token) :
    Gives f total (parents scope b t : Run (Context σ) Answer) (f.onBranch b t.identity) := by
  refine (lookup_spec b scope t).never.bind fun found => Act.Spec.given fun hfound => ?_
  cases found with
  | some e => exact Act.Spec.pure fun c hc => ⟨hfound e rfl, hc⟩
  | none =>
    refine (askBranch_spec b t).bind fun a => Act.Spec.given fun ha => ?_
    subst ha
    exact (keep_spec b scope t).never.bind fun _ => Act.Spec.pure fun _ hc => ⟨rfl, hc⟩

end Context
end Lineage
