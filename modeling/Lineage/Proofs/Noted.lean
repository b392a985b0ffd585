import Lineage.Proofs.Faithful

/-!
# Sources that note the questions

What sources are asked, and in which order, is told by noting the questions. That changes nothing else: the answers, the failures and
whatever becomes of the sources are the same with and without a note. `Asking c qs r` says of an operation that it asks the questions
`qs` one after the other and does nothing else, and that it fails if one of them fails, as that one does and without asking the rest.
-/

namespace Lineage

/-- The categories of the sources that are asked on a branch, in order. -/
def Branch.categories : Branch → List Category
  | .native => [.native]
  | .hooked => [.auxiliary, .hooking]

namespace Sources

variable {σ : Type} [Sources σ] {s s' s'' : σ} {qs qs' : List (Category × Token)} {x : Except Error Unit} {e : Error}

/-- Questions that are asked one after the other, each of what the one before left. All were answered, or the last one failed and its
failure is the result. -/
inductive Replies : σ → List (Category × Token) → Except Error Unit → σ → Prop where
  | done (s : σ) : Replies s [] (.ok ()) s
  | failed {s s' : σ} {category : Category} {t : Token} {cause : String} :
      Sources.ask category t s = (.error cause, s') → Replies s [(category, t)] (.error (.sourceFailed category t.display cause)) s'
  | next {s s' s'' : σ} {category : Category} {t : Token} {a : Answer} {qs : List (Category × Token)} {x : Except Error Unit} :
      Sources.ask category t s = (.ok a, s') → Replies s' qs x s'' → Replies s ((category, t) :: qs) x s''

theorem Replies.append (h : Replies s qs (.ok ()) s') (h' : Replies s' qs' x s'') : Replies s (qs ++ qs') x s'' := by
  generalize hx : (.ok () : Except Error Unit) = y at h
  induction h with
  | done s => exact h'
  | failed _ => cases hx
  | next hask _ ih => exact .next hask (ih h' hx)

/-- A failure is that of the last question. -/
theorem Replies.of_error (h : Replies s qs (.error e) s') :
    ∃ earlier category t cause, qs = earlier ++ [(category, t)] ∧ e = .sourceFailed category t.display cause := by
  generalize hx : (.error e : Except Error Unit) = y at h
  induction h with
  | done s => cases hx
  | failed _ =>
    cases hx
    exact ⟨[], _, _, _, rfl, rfl⟩
  | next _ _ ih =>
    obtain ⟨earlier, category, t, cause, rfl, he⟩ := ih hx
    exact ⟨_ :: earlier, category, t, cause, rfl, he⟩

end Sources

/-- Sources together with the questions that they were asked. -/
structure Noted (σ : Type) where
  sources : σ
  questions : List (Category × Token)

namespace Noted

variable {σ : Type} [Sources σ] {f : Ancestry}

instance : Sources (Noted σ) where
  ask category t s :=
    match Sources.ask category t s.sources with
    | (reply, sources) => (reply, ⟨sources, s.questions ++ [(category, t)]⟩)

theorem leads_sources {s s' : Noted σ} (h : Sources.Leads s s') : Sources.Leads s.sources s'.sources := by
  induction h with
  | refl => exact .refl _
  | ask category t _ ih => exact .ask category t ih

/-- Sources agree with an ancestry whether their questions are noted or not. -/
theorem agree {sources : σ} (h : Sources.Agree f sources) (questions : List (Category × Token)) :
    Sources.Agree f (⟨sources, questions⟩ : Noted σ) :=
  fun s hl category t a ha => h s.sources (leads_sources hl) category t a ha

theorem answering {sources : σ} (h : Sources.Answering sources) (questions : List (Category × Token)) :
    Sources.Answering (⟨sources, questions⟩ : Noted σ) :=
  fun s hl category t => h s.sources (leads_sources hl) category t

end Noted

namespace Context

variable {σ : Type}

/-- Sources whose questions are noted from now on, without a cache. -/
def noting (sources : σ) : Context (Noted σ) := new ⟨sources, []⟩ .disabled

/-- The same sources are asked, on one side with a note of the questions. Caches and logs do not matter. -/
def Unnoted (c : Context (Noted σ)) (c' : Context σ) : Prop := c'.sources = c.sources.sources

variable [Sources σ]

/-- A question is noted, and if it fails then with what the source says. -/
theorem ask_noting (category : Category) (t : Token) (c : Context (Noted σ)) :
    (ask category t c).2.sources.questions = c.sources.questions ++ [(category, t)] ∧
      ∀ e, (ask category t c).1 = .error e → ∃ cause, e = .sourceFailed category t.display cause := by
  unfold ask
  simp only [Sources.ask]
  rcases Sources.ask category t c.sources.sources with ⟨cause | a, sources⟩
  · exact ⟨rfl, fun e he => ⟨cause, (Except.error.inj he).symm⟩⟩
  · exact ⟨rfl, fun e he => nomatch he⟩

theorem ask_unnoted (category : Category) (t : Token) :
    Act.Mirrors Unnoted Eq (ask category t : Run (Context (Noted σ)) Answer) (ask category t : Run (Context σ) Answer) := by
  intro c c' hc
  unfold ask
  simp only [Sources.ask]
  rw [hc]
  rcases Sources.ask category t c.sources.sources with ⟨cause | a, sources⟩
  · exact ⟨.error _, rfl⟩
  · exact ⟨.ok rfl, rfl⟩

omit [Sources σ] in
theorem emit_unnoted (e : Log.Event) :
    Act.Mirrors Unnoted Eq (emit e : Run (Context (Noted σ)) Unit) (emit e : Run (Context σ) Unit) :=
  Act.Mirrors.modify fun _ _ hc => hc

/-- Where there is no cache, what sources say is all that there is. -/
theorem faithful_noting {f : Ancestry} {total : Prop} {sources : σ} (h : Sources.Agree f sources)
    (ht : total → Sources.Answering sources) : (noting sources).Faithful f total :=
  faithful_new .disabled (Noted.agree h []) fun htotal => Noted.answering (ht htotal) []

/-! ## Operations that ask -/

/-- From one context to the other nothing was done but to ask questions. -/
structure Queried (c : Context (Noted σ)) (qs : List (Category × Token)) (x : Except Error Unit) (c' : Context (Noted σ)) : Prop where
  cache : c'.cache = c.cache
  questions : c'.sources.questions = c.sources.questions ++ qs
  replies : Sources.Replies c.sources.sources qs x c'.sources.sources

/-- From a context, an operation asks questions until one fails, and does nothing else. -/
abbrev Asking {α : Type} (c : Context (Noted σ)) (qs : List (Category × Token)) (r : Run (Context (Noted σ)) α) : Prop :=
  Act.Spec (· = c) r (fun _ => Queried c qs (.ok ())) fun e c' => ∃ asked, asked <+: qs ∧ Queried c asked (.error e) c'

variable {α β : Type} {c c' c'' : Context (Noted σ)} {qs qs' : List (Category × Token)} {x : Except Error Unit}

theorem Queried.refl (c : Context (Noted σ)) : Queried c [] (.ok ()) c := ⟨rfl, (List.append_nil _).symm, .done _⟩

theorem Queried.trans (h : Queried c qs (.ok ()) c') (h' : Queried c' qs' x c'') : Queried c (qs ++ qs') x c'' :=
  ⟨h'.cache.trans h.cache, by rw [h'.questions, h.questions, List.append_assoc], h.replies.append h'.replies⟩

theorem asking_ask (c : Context (Noted σ)) (category : Category) (t : Token) : Asking c [(category, t)] (ask category t) := by
  intro c' hc'
  rw [hc']
  unfold ask
  simp only [Sources.ask]
  rcases hr : Sources.ask category t c.sources.sources with ⟨cause | a, sources⟩
  · exact ⟨_, List.prefix_rfl, rfl, rfl, .failed hr⟩
  · exact ⟨rfl, rfl, .next hr (.done _)⟩

theorem asking_pure (c : Context (Noted σ)) (a : α) : Asking c [] (pure a : Run (Context (Noted σ)) α) :=
  Act.Spec.pure fun _ hc => hc ▸ Queried.refl c

/-- One operation after the other asks the questions of both. -/
theorem Asking.bind {r : Run (Context (Noted σ)) α} {k : α → Run (Context (Noted σ)) β} (h : Asking c qs r)
    (hk : ∀ a c', c'.cache = c.cache → Asking c' qs' (k a)) : Asking c (qs ++ qs') (r >>= k) := by
  refine Act.Spec.bind (h.weaken (fun _ hc => hc) (fun _ _ hq => hq) fun e c' hq => ?_) fun a c' hq => ?_
  · obtain ⟨asked, hprefix, hqueried⟩ := hq
    exact ⟨asked, hprefix.trans (List.prefix_append _ _), hqueried⟩
  · rcases (hk a c' hq.cache).outcome rfl with ⟨b, c'', hr, hq'⟩ | ⟨e, c'', hr, asked, hprefix, hq'⟩
    · rw [hr]
      exact hq.trans hq'
    · rw [hr]
      exact ⟨_, List.prefix_append_right_inj qs |>.2 hprefix, hq.trans hq'⟩

/-- The sources of a branch are asked in order. -/
theorem asking_askBranch (c : Context (Noted σ)) (b : Branch) (t : Token) :
    Asking c (b.categories.map (·, t)) (askBranch b t) := by
  cases b with
  | native => exact asking_ask c .native t
  | hooked =>
    have hhooking : ∀ (a : Answer) (c : Context (Noted σ)),
        Asking c [(.hooking, t)] (do let b ← ask .hooking t; pure (a.merge b)) :=
      fun a c => (asking_ask c .hooking t).bind fun _ c' _ => asking_pure c' _
    exact (asking_ask c .auxiliary t).bind fun a c' _ => hhooking a c'

end Context

end Lineage
