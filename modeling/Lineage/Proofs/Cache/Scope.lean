import Lineage.Proofs.Cache.Balance
import Lineage.Proofs.Cache.Renaming

/-!
# What a scope uses of a cache

Lookups of one scope leave in a cache what they look up and add for this scope, and nothing else: no other user gets an answer by them,
and without a user nothing changes. Nor do they see of other users more than how many answers there are. Caches that have as many
answers, and the same for the user, are `AlikeFor` the scope, and whatever is looked up for it is answered alike.
-/

namespace Lineage

namespace Cache

variable {settings : CacheSettings} {c c' : Cache} {b : Branch} {scope : Scope} {user : String} {maxSize : Nat} {k : Key} {e : Entry}
  {s s' : Shelf} {call : Call} {calls : List Call} {t : Token}

/-! ## What calls for a scope leave -/

/-- Whether a call looks up or adds for a scope. -/
def Call.isFor (scope : Scope) : Call → Bool
  | .add _ other .. | .lookup _ other _ => other = scope
  | .clear => false

/-- What another user has on a shelf after a call was there before. -/
theorem Call.find?_of_find?_shelve (hf : call.isFor scope = true) (hk : scope ≠ some k.user)
    (h : (call.shelve settings b s).entries.find? k = some e) : s.entries.find? k = some e := by
  rcases call.shelve_cases settings b with ⟨user, t, a, rfl, hs⟩ | rfl | ⟨hs, -⟩
  · rw [hs] at h
    obtain ⟨-, hold | ⟨rfl, -⟩⟩ := Shelf.find?_keep h
    · exact hold
    · exact (hk (of_decide_eq_true hf).symm).elim
  · cases hf
  · rwa [(hs s).1] at h

theorem find?_of_find?_after (hf : ∀ call ∈ calls, call.isFor scope = true) (hk : scope ≠ some k.user)
    (h : ((c.after calls).shelf b).entries.find? k = some e) : (c.shelf b).entries.find? k = some e := by
  induction calls using List.reverseRecOn with
  | nil => exact h
  | append_singleton calls call ih =>
    rw [after_append] at h
    change ((call.run (c.after calls)).2.shelf b).entries.find? k = some e at h
    rw [(run_eq _ call).2] at h
    exact ih (fun call hc => hf call (List.mem_append_left _ hc)) (Call.find?_of_find?_shelve (hf call (by simp)) hk h)

/-- Without a user nothing is kept, and nothing is counted. -/
theorem after_of_isFor_none (hf : ∀ call ∈ calls, call.isFor none = true) : c.after calls = c := by
  induction calls with
  | nil => rfl
  | cons call calls ih =>
    have hanonymous : call.isAnonymous = true := by
      have := hf call List.mem_cons_self
      cases call with
      | add | lookup => exact this
      | clear => cases this
    show (call.run c).2.after calls = c
    rw [Call.run_of_isAnonymous hanonymous]
    exact ih fun call hc => hf call (List.mem_cons_of_mem _ hc)

/-! ## What calls for a scope see -/

/-- Two shelves that have the same answers for a user, and as many for all users. -/
structure Shelf.AlikeFor (user : String) (s s' : Shelf) : Prop where
  size : s'.entries.size = s.entries.size
  finds (x : Identity) : s'.entries.find? ⟨user, x⟩ = s.entries.find? ⟨user, x⟩

/-- An answer for the user is kept on both shelves, or overflows both alike. -/
theorem Shelf.AlikeFor.keep (h : s.AlikeFor user s') (maxSize : Nat) (x : Identity) (e : Entry) :
    (s'.keep maxSize ⟨user, x⟩ e).2 = (s.keep maxSize ⟨user, x⟩ e).2 ∧
      (s.keep maxSize ⟨user, x⟩ e).1.AlikeFor user (s'.keep maxSize ⟨user, x⟩ e).1 := by
  have hsize : (s'.entries.insertNew ⟨user, x⟩ e).size = (s.entries.insertNew ⟨user, x⟩ e).size := by
    rw [Table.size_insertNew, Table.size_insertNew, Table.contains, Table.contains, h.finds, h.size]
  unfold Shelf.keep
  dsimp only
  rw [hsize]
  split
  · exact ⟨rfl, rfl, fun _ => rfl⟩
  · refine ⟨rfl, hsize, fun y => ?_⟩
    rw [Table.find?_insertNew, Table.find?_insertNew, h.finds, h.finds]

/-- Two caches that are the same to a scope. Without a user only the settings matter. -/
structure AlikeFor (scope : Scope) (c c' : Cache) : Prop where
  settings : c'.settings = c.settings
  shelves (user : String) (b : Branch) : scope = some user → (c.shelf b).AlikeFor user (c'.shelf b)

theorem AlikeFor.userFor_eq (h : c.AlikeFor scope c') : c'.userFor scope = c.userFor scope := by
  rw [userFor, h.settings, userFor]

/-- A call for the scope leaves caches alike. -/
theorem AlikeFor.run (h : c.AlikeFor scope c') (hf : call.isFor scope = true) : (call.run c).2.AlikeFor scope (call.run c').2 where
  settings := by rw [(run_eq c' call).1, (run_eq c call).1, h.settings]
  shelves user b hu := by
    subst hu
    have hshelf := h.shelves user b rfl
    rw [(run_eq c' call).2, (run_eq c call).2, h.settings]
    cases call with
    | add b' other t a =>
      obtain rfl : other = some user := of_decide_eq_true hf
      rw [Call.shelve, Call.shelve]
      split
      · exact (hshelf.keep _ _ _).2
      · exact hshelf
    | lookup b' other t =>
      obtain rfl : other = some user := of_decide_eq_true hf
      rw [Call.shelve, Call.shelve]
      split
      · exact ⟨by rw [Shelf.entries_count, Shelf.entries_count, hshelf.size],
          fun x => by rw [Shelf.entries_count, Shelf.entries_count, hshelf.finds]⟩
      · exact hshelf
    | clear => cases hf

/-- A lookup for the scope finds the same. -/
theorem AlikeFor.lookup_fst_eq (h : c.AlikeFor scope c') (b : Branch) (t : Token) :
    (c'.lookup b scope t).1 = (c.lookup b scope t).1 := by
  cases scope with
  | none =>
    have hnone : ∀ c : Cache, (c.lookup b none t).1 = none := fun c => by rw [lookup, userFor, ite_self]
    rw [hnone, hnone]
  | some user => rw [lookup_fst, lookup_fst, h.settings, (h.shelves user b rfl).finds]

/-- What is added for the scope overflows both caches alike. -/
theorem AlikeFor.add_snd_eq (h : c.AlikeFor scope c') (b : Branch) (t : Token) (a : Answer) :
    (c'.add b scope t a).2 = (c.add b scope t a).2 := by
  unfold add
  rw [h.userFor_eq]
  cases hu : c.userFor scope with
  | none => rfl
  | some user =>
    rw [h.settings]
    exact ((h.shelves user b (userFor_eq_some hu).2).keep _ _ _).1

end Cache

namespace Context

variable {σ : Type} [Sources σ] {scope : Scope} {c c₀ : Context σ} {looks : List Look}

/-- One question through the cache is a lookup for its scope, and after that an answer is added for the scope at most. -/
theorem exists_calls_parents (scope : Scope) (b : Branch) (t : Token) (c : Context σ) :
    ∃ calls, (parents scope b t c).2.cache = c.cache.after calls ∧ ∀ call ∈ calls, call.isFor scope = true := by
  obtain ⟨found, c₁, hlookup, -, hcache₁, -⟩ | ⟨_, _, _, hx⟩ := (lookup_effect b scope t c).outcome rfl
  · unfold parents
    rw [Act.bind_of_ok hlookup]
    cases found with
    | some e => exact ⟨[.lookup b scope t], hcache₁, by simp [Cache.Call.isFor]⟩
    | none =>
      have hasks := keeps_askBranch c₁ b t c₁ ⟨Sources.Leads.refl _, rfl⟩
      dsimp only
      rcases hr : askBranch b t c₁ with ⟨x | a, c₂⟩
      · rw [hr] at hasks
        rw [Act.bind_of_error hr]
        exact ⟨[.lookup b scope t], hasks.cache.trans hcache₁, by simp [Cache.Call.isFor]⟩
      · rw [hr] at hasks
        obtain ⟨_, c₃, hkeep, hcache₃, -⟩ | ⟨_, _, _, hx⟩ := (keep_effect b scope t a c₂).outcome rfl
        · rw [Act.bind_of_ok hr, Act.bind_of_ok hkeep]
          refine ⟨[.lookup b scope t, .add b scope t a], ?_, by simp [Cache.Call.isFor]⟩
          show c₃.cache = (((c.cache.lookup b scope t).2).add b scope t a).1
          rw [hcache₃, hasks.cache, hcache₁]
        · exact hx.elim
  · exact hx.elim

/-- Lookups for a scope leave in the cache what such calls leave. -/
theorem Looked.exists_calls (h : Looked c₀ looks c) (hs : ∀ l ∈ looks, l.question.scope = scope) :
    ∃ calls, c.cache = c₀.cache.after calls ∧ ∀ call ∈ calls, call.isFor scope = true := by
  induction h with
  | start => exact ⟨[], rfl, nofun⟩
  | @look _ c q _ ih =>
    obtain ⟨calls, hcache, hcalls⟩ := ih fun l hl => hs l (List.mem_append_left _ hl)
    obtain ⟨more, hmore, hfor⟩ := exists_calls_parents q.scope q.branch q.token c
    refine ⟨calls ++ more, by rw [hmore, hcache, Cache.after_append], fun call hcall => ?_⟩
    rcases List.mem_append.1 hcall with hcall | hcall
    · exact hcalls call hcall
    · rw [← hs _ (List.mem_append_right _ List.mem_cons_self)]
      exact hfor call hcall
  | log _ _ ih => exact ih hs

/-- Two contexts that differ in what their caches have for others at most. -/
structure AlikeFor (scope : Scope) (c c' : Context σ) : Prop where
  cache : c.cache.AlikeFor scope c'.cache
  sources : c'.sources = c.sources
  log : c'.log = c.log

omit [Sources σ] in
theorem emit_alike (scope : Scope) (e : Log.Event) : Act.Mirrors (AlikeFor scope) Eq (emit e : Run (Context σ) Unit) (emit e) := by
  refine Act.Mirrors.modify fun c c' hc => ⟨hc.cache, hc.sources, ?_⟩
  rw [hc.log]

omit [Sources σ] in
/-- A lookup for the scope finds the same, and is logged alike. -/
theorem lookup_alike (scope : Scope) (b : Branch) (t : Token) :
    Act.Mirrors (AlikeFor scope) Eq (lookup b scope t : Run (Context σ) (Option Cache.Entry)) (lookup b scope t) := by
  intro c c' hc
  have hfound := hc.cache.lookup_fst_eq b t
  have hcache := hc.cache.run (show (Cache.Call.lookup b scope t).isFor scope = true from decide_eq_true rfl)
  unfold lookup
  rw [hc.cache.userFor_eq]
  cases c.cache.userFor scope with
  | none =>
    dsimp only
    rw [hfound]
    exact ⟨.ok rfl, hcache, hc.sources, hc.log⟩
  | some user =>
    dsimp only
    rw [hfound, hc.log]
    exact ⟨.ok rfl, hcache, hc.sources, rfl⟩

omit [Sources σ] in
/-- What is kept for the scope overflows on both sides or on none, and is logged alike. -/
theorem keep_alike (scope : Scope) (b : Branch) (t : Token) (a : Answer) :
    Act.Mirrors (AlikeFor scope) Eq (keep b scope t a : Run (Context σ) Unit) (keep b scope t a) := by
  intro c c' hc
  have hdropped := hc.cache.add_snd_eq b t a
  have hcache := hc.cache.run (show (Cache.Call.add b scope t a).isFor scope = true from decide_eq_true rfl)
  change (c.cache.add b scope t a).1.AlikeFor scope (c'.cache.add b scope t a).1 at hcache
  unfold keep
  rcases hadd : c.cache.add b scope t a with ⟨cache, dropped⟩
  rcases hadd' : c'.cache.add b scope t a with ⟨cache', dropped'⟩
  rw [hadd, hadd'] at hdropped hcache
  obtain rfl : dropped' = dropped := hdropped
  cases dropped' with
  | none => exact ⟨.ok rfl, hcache, hc.sources, hc.log⟩
  | some dropped =>
    dsimp only
    rw [hc.log, hc.cache.settings]
    exact ⟨.ok rfl, hcache, hc.sources, rfl⟩

theorem ask_alike (scope : Scope) (category : Category) (t : Token) :
    Act.Mirrors (AlikeFor scope) Eq (ask category t : Run (Context σ) Answer) (ask category t) := by
  intro c c' hc
  unfold ask
  rw [hc.sources]
  rcases Sources.ask category t c.sources with ⟨cause | a, sources⟩
  · exact ⟨.error _, hc.cache, rfl, hc.log⟩
  · exact ⟨.ok rfl, hc.cache, rfl, hc.log⟩

theorem askBranch_alike (scope : Scope) (b : Branch) (t : Token) :
    Act.Mirrors (AlikeFor scope) Eq (askBranch b t : Run (Context σ) Answer) (askBranch b t) := by
  cases b with
  | native => exact ask_alike scope .native t
  | hooked =>
    refine (ask_alike scope .auxiliary t).bind fun x _ hx => (ask_alike scope .hooking t).bind fun y _ hy => ?_
    subst hx hy
    exact Act.Mirrors.pure rfl

/-- A question for the scope is answered alike, whatever the caches have for others. -/
theorem parents_alike (scope : Scope) (b : Branch) (t : Token) :
    Act.Mirrors (AlikeFor scope) Eq (parents scope b t : Run (Context σ) Answer) (parents scope b t) := by
  refine (lookup_alike scope b t).bind fun found _ hfound => ?_
  subst hfound
  cases found with
  | some e => exact Act.Mirrors.pure rfl
  | none =>
    refine (askBranch_alike scope b t).bind fun a _ ha => ?_
    subst ha
    exact (keep_alike scope b t a).bind fun _ _ _ => Act.Mirrors.pure rfl

end Context
end Lineage
