import Lineage.Proofs.Noted
import Lineage.Proofs.Graph.Asking

/-!
# The accounts of a cache

Nothing is kept but what was looked up in vain and then answered, and it is kept under a key that was free. So a lookup that misses is
one of three things: it failed, its answer is still on the shelf, or the answer went when the shelf was emptied, and then as many went
with it as the limit says and one more. `Looked` is a run of lookups, with a log between them; graphs that are built and called make
such runs too.
-/

namespace Lineage

namespace Cache

variable {s : Shelf} {maxSize : Nat} {k : Key} {e : Entry} {settings : CacheSettings} {b : Branch} {scope : Scope} {t : Token} {a : Answer}

/-! ## What a shelf holds -/

/-- A shelf that is not too large keeps within the limit, and when it overflows it had room for no more than the limit. -/
theorem Shelf.size_keep (h : s.entries.size ≤ maxSize) (k : Key) (e : Entry) :
    (s.keep maxSize k e).1.entries.size ≤ maxSize ∧ ∀ dropped, (s.keep maxSize k e).2 = some dropped → dropped = maxSize + 1 := by
  have hnew : (s.entries.insertNew k e).size ≤ s.entries.size + 1 := by
    rw [Table.size_insertNew]
    split <;> omega
  unfold Shelf.keep
  dsimp only
  split
  · next hlt =>
    refine ⟨Nat.zero_le _, fun dropped hd => ?_⟩
    cases hd
    omega
  · next hle =>
    refine ⟨Nat.not_lt.1 hle, fun dropped hd => ?_⟩
    cases hd

/-- To keep something under a free key counts as one more entry, also if the shelf is emptied for it. -/
theorem Shelf.keep_of_free (h : s.entries.size ≤ maxSize) (hk : s.entries.find? k = none) (e : Entry) :
    (s.keep maxSize k e).1.entries.size + (s.keep maxSize k e).1.resets * (maxSize + 1) =
        s.entries.size + s.resets * (maxSize + 1) + 1 ∧
      (s.keep maxSize k e).1.hits = s.hits ∧ (s.keep maxSize k e).1.misses = s.misses := by
  have hnew : (s.entries.insertNew k e).size = s.entries.size + 1 := by
    rw [Table.size_insertNew, Table.contains, hk]
    rfl
  unfold Shelf.keep
  dsimp only
  split
  · next hlt =>
    have hfull : s.entries.size = maxSize := by omega
    refine ⟨?_, rfl, rfl⟩
    show 0 + (s.resets + 1) * (maxSize + 1) = _
    rw [Nat.succ_mul, hfull]
    omega
  · refine ⟨?_, rfl, rfl⟩
    show (s.entries.insertNew k e).size + s.resets * (maxSize + 1) = _
    rw [hnew]
    omega

/-- After any calls no shelf holds more than the limit. -/
theorem size_after_le (settings : CacheSettings) (calls : List Call) (b : Branch) :
    ((new settings).after calls).size b ≤ settings.maxSize := by
  induction calls using List.reverseRecOn with
  | nil => cases b <;> exact Nat.zero_le _
  | append_singleton calls call ih =>
    rw [after_append]
    show (((call.run ((new settings).after calls)).2).shelf b).entries.size ≤ _
    rw [(run_eq _ call).2, settings_after]
    rcases call.shelve_cases settings b with ⟨user, t, a, -, hs⟩ | rfl | ⟨hs, -⟩
    · rw [show (new settings).settings = settings from rfl, hs]
      exact (Shelf.size_keep ih _ _).1
    · exact Nat.zero_le _
    · rw [show (new settings).settings = settings from rfl, (hs _).1]
      exact ih

/-- An overflow drops as many answers as the limit allows, and the one that was too many. -/
theorem dropped_eq (settings : CacheSettings) (calls : List Call) {dropped : Nat}
    (h : (((new settings).after calls).add b scope t a).2 = some dropped) : dropped = settings.maxSize + 1 := by
  unfold add at h
  split at h
  · cases h
  · rw [settings_after] at h
    exact (Shelf.size_keep (size_after_le settings calls b) _ _).2 dropped h

end Cache

namespace Branch

/-- The category that is asked first on a branch. -/
def first : Branch → Category
  | .native => .native
  | .hooked => .auxiliary

end Branch

namespace Context

/-! ## Lookups -/

/-- A lookup, and how it ended. -/
structure Look where
  question : Question
  result : Except Error Answer

namespace Look

/-- Whether the lookup was one on a branch. -/
def isOn (b : Branch) (l : Look) : Bool := l.question.branch = b

/-- Whether the lookup failed, on a branch. -/
def fails (b : Branch) (l : Look) : Bool :=
  l.isOn b && match l.result with
    | .ok _ => false
    | .error _ => true

/-- Whether the lookup failed at the source of a category. -/
def failsAt (category : Category) (l : Look) : Bool :=
  match l.result with
  | .error (.sourceFailed k _ _) => k = category
  | _ => false

end Look

variable {σ : Type} [Sources σ]

/-- `Looked c looks c'`: from `c` to `c'` nothing was done but these lookups, one after the other, and some logging. -/
inductive Looked (c : Context σ) : List Look → Context σ → Prop where
  | start : Looked c [] c
  | look {looks : List Look} {c' : Context σ} (q : Question) :
      Looked c looks c' → Looked c (looks ++ [⟨q, answer q c'⟩]) (parents q.scope q.branch q.token c').2
  | log {looks : List Look} {c' : Context σ} (log : Array Log.Event) : Looked c looks c' → Looked c looks { c' with log }

/-- How a lookup ends, and what it leaves: it finds an answer, it is answered by the sources, or it fails. -/
inductive Ends (q : Question) (c : Context (Noted σ)) : Except Error Answer → Context (Noted σ) → Prop where
  | found {e : Cache.Entry} {c' : Context (Noted σ)} : found? q c = some e →
      c'.cache = (c.cache.lookup q.branch q.scope q.token).2 → c'.sources.questions = c.sources.questions → Ends q c (.ok e.parents) c'
  | answered {a : Answer} {c' : Context (Noted σ)} : found? q c = none →
      c'.cache = ((c.cache.lookup q.branch q.scope q.token).2.add q.branch q.scope q.token a).1 →
      c'.sources.questions = c.sources.questions ++ q.branch.categories.map (·, q.token) → Ends q c (.ok a) c'
  | failed {category : Category} {cause : String} {asked : List Category} {c' : Context (Noted σ)} : found? q c = none →
      c'.cache = (c.cache.lookup q.branch q.scope q.token).2 → asked ++ [category] <+: q.branch.categories →
      c'.sources.questions = c.sources.questions ++ (asked ++ [category]).map (·, q.token) →
      Ends q c (.error (.sourceFailed category q.token.display cause)) c'

/-- What is noted when the sources of a branch are asked. They are asked up to the first failure. -/
theorem askBranch_noted (b : Branch) (t : Token) (c : Context (Noted σ)) :
    Act.Spec (· = c) (askBranch b t)
      (fun _ c' => c'.cache = c.cache ∧ c'.sources.questions = c.sources.questions ++ b.categories.map (·, t))
      fun e c' => c'.cache = c.cache ∧ ∃ asked category cause, e = .sourceFailed category t.display cause ∧
        asked ++ [category] <+: b.categories ∧ c'.sources.questions = c.sources.questions ++ (asked ++ [category]).map (·, t) := by
  refine (asking_askBranch c b t).weaken (fun _ hc => hc) (fun _ c' h => ⟨h.cache, h.questions⟩) fun e c' h => ?_
  obtain ⟨qs, hprefix, h⟩ := h
  obtain ⟨earlier, category, t', cause, rfl, rfl⟩ := h.replies.of_error
  obtain ⟨cs, hcategories, heq⟩ := List.prefix_map_iff.1 hprefix
  obtain ⟨asked, last, rfl, -, hlast⟩ := List.append_eq_map_iff.1 heq
  obtain ⟨k, rfl, hk⟩ := List.map_eq_singleton_iff.1 hlast
  cases hk
  exact ⟨h.cache, asked, category, cause, rfl, hcategories, heq ▸ h.questions⟩

/-- A lookup ends in one of the three ways. -/
theorem ends_parents (q : Question) (c : Context (Noted σ)) :
    Ends q c (answer q c) (parents q.scope q.branch q.token c).2 := by
  have hspec : Act.Spec (· = c) (parents q.scope q.branch q.token) (fun a => Ends q c (.ok a)) fun e => Ends q c (.error e) := by
    refine (lookup_effect q.branch q.scope q.token c).never.bind fun found => Act.Spec.given fun hfound => ?_
    cases found with
    | some e => exact Act.Spec.pure fun c' hc' => .found hfound.symm hc'.1 (by rw [hc'.2])
    | none =>
      refine Act.Spec.bind (R := fun _ c' => c'.cache = (c.cache.lookup q.branch q.scope q.token).2 ∧
        c'.sources.questions = c.sources.questions ++ q.branch.categories.map (·, q.token)) ?_ fun a => ?_
      · rintro c₁ ⟨hcache, hsources⟩
        refine (askBranch_noted q.branch q.token c₁).weaken (fun _ hc => hc) (fun _ c' h => ?_) (fun e c' h => ?_) c₁ rfl
        · rwa [hcache, hsources] at h
        · rw [hcache, hsources] at h
          obtain ⟨hcache', asked, category, cause, rfl, hprefix, hasked⟩ := h
          exact .failed hfound.symm hcache' hprefix hasked
      · refine Act.Spec.bind (R := fun _ c' => Ends q c (.ok a) c') ?_ fun _ => Act.Spec.pure fun _ h => h
        rintro c₂ ⟨hcache, hasked⟩
        refine (keep_effect q.branch q.scope q.token a c₂).never.weaken (fun _ hc => hc) (fun _ c' h => ?_) (fun _ _ h => h) c₂ rfl
        exact .answered hfound.symm (by rw [h.1, hcache]) (by rw [h.2, hasked])
  obtain ⟨a, c', hr, h⟩ | ⟨e, c', hr, h⟩ := hspec.outcome rfl
  · rw [answer, hr]
    exact h
  · rw [answer, hr]
    exact h

/-! ## The balance of a branch -/

/-- The accounts of the shelf of a branch: how many lookups there were, what the sources were asked, and what became of the lookups that
missed. -/
structure Balance (maxSize : Nat) (b : Branch) (looks : List Look) (questions : List (Category × Token)) (s : Cache.Shelf) : Prop where
  size : s.entries.size ≤ maxSize
  lookups : s.hits + s.misses = looks.countP (·.isOn b)
  first : questions.countP (·.1 = b.first) = s.misses
  hooking : b = .hooked → questions.countP (·.1 = .hooking) + looks.countP (·.failsAt .auxiliary) = s.misses
  kept : s.misses = looks.countP (·.fails b) + s.entries.size + s.resets * (maxSize + 1)

variable {maxSize : Nat} {b : Branch} {looks : List Look} {q : Question} {x : Except Error Answer} {c c' : Context (Noted σ)}
  {user : String}

/-- Where the asking on a branch can stop. -/
theorem prefix_categories_cases {asked : List Category} {category : Category} (h : asked ++ [category] <+: b.categories) :
    (b = .native ∧ asked = [] ∧ category = .native) ∨ (b = .hooked ∧ asked = [] ∧ category = .auxiliary) ∨
      (b = .hooked ∧ asked = [.auxiliary] ∧ category = .hooking) := by
  rcases asked with _ | ⟨k, _ | ⟨k', rest⟩⟩ <;> cases b <;> simp_all [Branch.categories]

omit [Sources σ] in
/-- A lookup that finds nothing asks the first category of its branch once, and the second one unless the first one failed. -/
theorem Ends.countP_questions (h : Ends q c x c') (b : Branch) :
    c'.sources.questions.countP (·.1 = b.first) =
        c.sources.questions.countP (·.1 = b.first) + (if q.branch = b ∧ found? q c = none then 1 else 0) ∧
      (b = .hooked → c'.sources.questions.countP (·.1 = .hooking) + [Look.mk q x].countP (·.failsAt .auxiliary) =
        c.sources.questions.countP (·.1 = .hooking) + (if q.branch = b ∧ found? q c = none then 1 else 0)) := by
  cases h with
  | found hfound _ hasked => simp [hasked, hfound, Look.failsAt]
  | answered hfound _ hasked =>
    rw [hasked, List.countP_append, List.countP_append]
    cases hq : q.branch <;> cases b <;> simp [hfound, Branch.categories, Branch.first, Look.failsAt]
  | failed hfound _ hprefix hasked =>
    rw [hasked, List.countP_append, List.countP_append]
    rcases prefix_categories_cases hprefix with ⟨hq, rfl, rfl⟩ | ⟨hq, rfl, rfl⟩ | ⟨hq, rfl, rfl⟩ <;> cases b <;>
      simp [hq, hfound, Branch.first, Look.failsAt]

omit [Sources σ] in
/-- A lookup on another branch leaves the shelf alone. -/
theorem Ends.shelf_of_ne (h : Ends q c x c') (hb : q.branch ≠ b) : c'.cache.shelf b = c.cache.shelf b := by
  have hcall : ∀ (call : Cache.Call) (cache : Cache), call.isAbout b = false → (call.run cache).2.shelf b = cache.shelf b :=
    fun call cache hnot => ((Cache.run_eq cache call).2 b).trans (Cache.Call.shelve_of_not_isAbout hnot _)
  have hlookup := hcall (.lookup q.branch q.scope q.token) c.cache (decide_eq_false hb)
  cases h with
  | found _ hcache _ | failed _ hcache _ _ => exact (congrArg (·.shelf b) hcache).trans hlookup
  | @answered a _ _ hcache _ =>
    have hadd := hcall (.add q.branch q.scope q.token a) (c.cache.lookup q.branch q.scope q.token).2 (decide_eq_false hb)
    exact (congrArg (·.shelf b) hcache).trans (hadd.trans hlookup)

omit [Sources σ] in
/-- A lookup counts, and it keeps an answer that the sources gave. -/
theorem Ends.shelf_eq (h : Ends q c x c') (he : c.cache.settings.enabled = true) (hu : q.scope = some user) :
    let s := c.cache.shelf q.branch
    let k : Cache.Key := ⟨user, q.token.identity⟩
    found? q c = s.entries.find? k ∧ c'.cache.shelf q.branch = match found? q c, x with
      | some _, _ => s.count true
      | none, .error _ => s.count false
      | none, .ok a => ((s.count false).keep c.cache.settings.maxSize k ⟨q.token, a⟩).1 := by
  have hfound : found? q c = (c.cache.shelf q.branch).entries.find? ⟨user, q.token.identity⟩ := by
    rw [found?, hu, Cache.lookup_fst, if_pos he]
  have hcount : (c.cache.lookup q.branch q.scope q.token).2.shelf q.branch =
      (c.cache.shelf q.branch).count (found? q c).isSome := by
    rw [hfound, ← Cache.Call.shelve_lookup he, ← hu]
    exact (Cache.run_eq c.cache (.lookup q.branch q.scope q.token)).2 q.branch
  refine ⟨hfound, ?_⟩
  cases h with
  | found hsome hcache _ =>
    rw [hcache, hcount, hsome]
    rfl
  | failed hnone hcache _ _ =>
    rw [hcache, hcount, hnone]
    rfl
  | @answered a _ hnone hcache _ =>
    have hadd := (Cache.run_eq (c.cache.lookup q.branch q.scope q.token).2 (.add q.branch q.scope q.token a)).2 q.branch
    rw [Cache.settings_lookup, hu, Cache.Call.shelve_add he, ← hu, hcount, hnone] at hadd
    rw [hcache, hnone]
    exact hadd

/-- The accounts stay balanced when a lookup is entered everywhere: as a hit or as a miss, and as a miss also in what was asked, and in
what failed or was kept. -/
theorem Balance.enter {s s' : Cache.Shelf} {qs qs' : List (Category × Token)} {l : Look} {missed : Nat}
    (h : Balance maxSize b looks qs s) (hsize : s'.entries.size ≤ maxSize) (hmisses : s'.misses = s.misses + missed)
    (hlookups : s'.hits + s'.misses = s.hits + s.misses + [l].countP (·.isOn b))
    (hfirst : qs'.countP (·.1 = b.first) = qs.countP (·.1 = b.first) + missed)
    (hhooking : b = .hooked →
      qs'.countP (·.1 = .hooking) + [l].countP (·.failsAt .auxiliary) = qs.countP (·.1 = .hooking) + missed)
    (hkept : [l].countP (·.fails b) + s'.entries.size + s'.resets * (maxSize + 1) =
      s.entries.size + s.resets * (maxSize + 1) + missed) :
    Balance maxSize b (looks ++ [l]) qs' s' where
  size := hsize
  lookups := by rw [List.countP_append, hlookups, h.lookups]
  first := by rw [hfirst, h.first, hmisses]
  hooking := fun hb => by
    have hbefore := h.hooking hb
    have hafter := hhooking hb
    rw [List.countP_append, hmisses]
    omega
  kept := by
    have hbefore := h.kept
    rw [List.countP_append, hmisses]
    omega

omit [Sources σ] in
/-- A lookup on another branch is entered nowhere. -/
theorem Balance.look_of_ne (h : Balance maxSize b looks c.sources.questions (c.cache.shelf b)) (hb : q.branch ≠ b) (hend : Ends q c x c') :
    Balance maxSize b (looks ++ [⟨q, x⟩]) c'.sources.questions (c'.cache.shelf b) := by
  obtain ⟨hfirst, hhooking⟩ := hend.countP_questions b
  have hon : [Look.mk q x].countP (·.isOn b) = 0 := by simp [Look.isOn, hb]
  have hfails : [Look.mk q x].countP (·.fails b) = 0 := by simp [Look.fails, Look.isOn, hb]
  simp only [hb, false_and, if_false] at hfirst hhooking
  rw [hend.shelf_of_ne hb]
  refine h.enter h.size rfl ?_ hfirst hhooking ?_
  · rw [hon]
    rfl
  · rw [hfails, Nat.zero_add]
    rfl

omit [Sources σ] in
/-- One more lookup keeps the accounts balanced. -/
theorem Balance.look (h : Balance c.cache.settings.maxSize b looks c.sources.questions (c.cache.shelf b))
    (he : c.cache.settings.enabled = true) (hu : q.scope = some user) (hend : Ends q c x c') :
    Balance c.cache.settings.maxSize b (looks ++ [⟨q, x⟩]) c'.sources.questions (c'.cache.shelf b) := by
  obtain ⟨hfirst, hhooking⟩ := hend.countP_questions b
  have hsize := h.size
  by_cases hb : q.branch = b
  · subst hb
    obtain ⟨hfound, hshelf⟩ := hend.shelf_eq he hu
    rw [hshelf]
    cases hend with
    | found hsome _ _ =>
      simp only [hsome, reduceCtorEq, and_false, if_false] at hfirst hhooking ⊢
      refine h.enter hsize rfl ?_ hfirst hhooking ?_
      · simp [Look.isOn, Cache.Shelf.count, Nat.add_right_comm]
      · simp [Look.fails, Cache.Shelf.count]
    | failed hnone _ _ _ =>
      simp only [hnone, and_self, if_true] at hfirst hhooking ⊢
      refine h.enter hsize rfl ?_ hfirst hhooking ?_
      · simp [Look.isOn, Cache.Shelf.count, Nat.add_assoc]
      · simp [Look.fails, Look.isOn, Cache.Shelf.count]
        omega
    | @answered a _ hnone _ _ =>
      have hfree : ((c.cache.shelf q.branch).count false).entries.find? ⟨user, q.token.identity⟩ = none := by
        rw [Cache.Shelf.entries_count, ← hfound, hnone]
      obtain ⟨htotal, hhits, hmisses⟩ := Cache.Shelf.keep_of_free (s := (c.cache.shelf q.branch).count false) hsize hfree ⟨q.token, a⟩
      simp only [hnone, and_self, if_true] at hfirst hhooking ⊢
      refine h.enter (Cache.Shelf.size_keep (s := (c.cache.shelf q.branch).count false) hsize _ _).1 hmisses ?_ hfirst hhooking ?_
      · rw [hhits, hmisses]
        simp [Look.isOn, Cache.Shelf.count, Nat.add_assoc]
      · rw [Nat.add_assoc, htotal]
        simp [Look.fails, Cache.Shelf.count]
  · exact h.look_of_ne hb hend

omit [Sources σ] in
theorem Ends.settings_eq (h : Ends q c x c') : c'.cache.settings = c.cache.settings := by
  cases h with
  | found _ hcache _ | failed _ hcache _ _ => rw [hcache, Cache.settings_lookup]
  | answered _ hcache _ => rw [hcache, Cache.settings_add, Cache.settings_lookup]

theorem balance_new (maxSize : Nat) (b : Branch) (settings : CacheSettings) :
    Balance maxSize b [] [] ((Cache.new settings).shelf b) := by
  cases b <;> exact ⟨Nat.zero_le _, rfl, rfl, fun _ => rfl, by simp [Cache.new, Cache.shelf, Cache.Shelf.empty]⟩

/-- After any lookups for users the accounts of both branches are balanced. -/
theorem Looked.balance {settings : CacheSettings} {sources : σ} (he : settings.enabled = true)
    (h : Looked (new (⟨sources, []⟩ : Noted σ) settings) looks c) (hu : ∀ l ∈ looks, l.question.scope ≠ none) :
    c.cache.settings = settings ∧ ∀ b, Balance settings.maxSize b looks c.sources.questions (c.cache.shelf b) := by
  induction h with
  | start => exact ⟨rfl, fun b => balance_new _ b settings⟩
  | @look looks c q _ ih =>
    obtain ⟨hsettings, hbalance⟩ := ih fun l hl => hu l (List.mem_append_left _ hl)
    obtain ⟨user, huser⟩ := Option.ne_none_iff_exists'.1 (hu ⟨q, answer q c⟩ (List.mem_append_right _ List.mem_cons_self))
    have hends := ends_parents q c
    refine ⟨hends.settings_eq.trans hsettings, fun b => ?_⟩
    have hb := hbalance b
    rw [← hsettings] at hb he ⊢
    exact hb.look he huser hends
  | log _ _ ih => exact ih hu

/-! ## What makes lookups -/

/-- From `c₀` nothing was done but lookups for a scope, and some logging. -/
def LookedFor (scope : Scope) (c₀ c : Context σ) : Prop := ∃ looks, Looked c₀ looks c ∧ ∀ l ∈ looks, l.question.scope = scope

variable {c₀ c₁ c₂ : Context σ} {more : List Look}

theorem Looked.trans (h : Looked c₀ looks c₁) (h' : Looked c₁ more c₂) : Looked c₀ (looks ++ more) c₂ := by
  induction h' with
  | start => rwa [List.append_nil]
  | look q _ ih =>
    rw [← List.append_assoc]
    exact .look q ih
  | log log _ ih => exact .log log ih

theorem keeps_lookedFor (c₀ : Context σ) (scope : Scope) (b : Branch) (t : Token) :
    Act.Keeps (LookedFor scope c₀) (parents scope b t : Run (Context σ) Answer) := by
  rintro c ⟨looks, hlooked, hscope⟩
  refine ⟨_, .look ⟨scope, b, t⟩ hlooked, fun l hl => ?_⟩
  rcases List.mem_append.1 hl with hl | hl
  · exact hscope l hl
  · rw [List.mem_singleton.1 hl]

theorem lookedFor_log {scope : Scope} (log : Array Log.Event) (h : LookedFor scope c₀ c₁) : LookedFor scope c₀ { c₁ with log } := by
  obtain ⟨looks, hlooked, hscope⟩ := h
  exact ⟨looks, .log log hlooked, hscope⟩

/-- What can be done with a context that makes lookups: one lookup, a graph that is built, and a call of a graph that there is. -/
inductive Operation where
  | lookup (q : Question)
  | build (scope : Scope) (search : Search) (root : Token) (onlyOne : Bool)
  | call (g : LevelGraph) (request : Growing.Call) (reachable : g.Reachable)

namespace Operation

/-- Whose answers are looked up. -/
def scope : Operation → Scope
  | .lookup q => q.scope
  | .build scope .. => scope
  | .call g .. => g.scope

/-- The context after an operation, however it ended. -/
def run (op : Operation) (c : Context σ) : Context σ :=
  match op with
  | .lookup q => (parents q.scope q.branch q.token c).2
  | .build scope search root onlyOne => (LevelGraph.build scope search root onlyOne c).2
  | .call g request _ => (request.run (⟨g, c⟩ : Growing σ)).2.context

/-- An operation makes lookups for its scope, and does nothing else with the context but log. -/
theorem lookedFor_run (op : Operation) (c : Context σ) : LookedFor op.scope c (op.run c) := by
  have hstart : LookedFor op.scope c c := ⟨[], .start, fun _ hl => nomatch hl⟩
  cases op with
  | lookup q => exact keeps_lookedFor c q.scope q.branch q.token c hstart
  | build scope search root onlyOne =>
    exact LevelGraph.keeps_context_build (keeps_lookedFor c scope) (fun _ log => lookedFor_log log) search root onlyOne c hstart
  | call g request hg =>
    have hexpand := Growing.keeps_context_expand (keeps_lookedFor c g.scope) g.search
    exact (Growing.keeps_call hexpand request ⟨g, c⟩ ⟨⟨hg.wellFormed, rfl, rfl⟩, hstart⟩).2

end Operation

/-- Operations make lookups for their scopes. -/
theorem exists_looked (ops : List Operation) (c : Context σ) :
    ∃ looks, Looked c looks (ops.foldl (fun c op => op.run c) c) ∧ ∀ l ∈ looks, ∃ op ∈ ops, l.question.scope = op.scope := by
  induction ops generalizing c with
  | nil => exact ⟨[], .start, fun _ hl => nomatch hl⟩
  | cons op ops ih =>
    obtain ⟨looks, hlooked, hscope⟩ := op.lookedFor_run c
    obtain ⟨more, hmore, hscopes⟩ := ih (op.run c)
    refine ⟨looks ++ more, hlooked.trans hmore, fun l hl => ?_⟩
    rcases List.mem_append.1 hl with hl | hl
    · exact ⟨op, List.mem_cons_self, hscope l hl⟩
    · obtain ⟨op', hop, heq⟩ := hscopes l hl
      exact ⟨op', List.mem_cons_of_mem op hop, heq⟩

/-- The accounts of the cache. Whatever is asked of a cache, no shelf ever holds more than the limit, and an overflow drops one answer
more than that. And however lookups for users are made through a cache that is used, by themselves or for graphs that are built and
called, whatever the sources say and wherever they fail: on each branch the hits and the misses are the lookups, the first source of the
branch was asked as often as the cache missed, and the hooking source as often unless the auxiliary one had failed. The misses are the
lookups that failed, the answers that are kept, and for each time the shelf was emptied as many as the limit says and one more. -/
theorem accounts_balance (settings : CacheSettings) (sources : σ) :
    (∀ (calls : List Cache.Call) (b : Branch), let cache := (Cache.new settings).after calls
      cache.size b ≤ settings.maxSize ∧
        ∀ scope t a dropped, (cache.add b scope t a).2 = some dropped → dropped = settings.maxSize + 1) ∧
    (settings.enabled = true → ∀ looks (c : Context (Noted σ)), Looked (new (⟨sources, []⟩ : Noted σ) settings) looks c →
      (∀ l ∈ looks, l.question.scope ≠ none) → ∀ b, let s := c.cache.shelf b
        s.entries.size ≤ settings.maxSize ∧
        s.hits + s.misses = looks.countP (·.isOn b) ∧
        c.sources.questions.countP (·.1 = b.first) = s.misses ∧
        (b = .hooked → c.sources.questions.countP (·.1 = .hooking) + looks.countP (·.failsAt .auxiliary) = s.misses) ∧
        s.misses = looks.countP (·.fails b) + s.entries.size + s.resets * (settings.maxSize + 1)) ∧
    ∀ (ops : List Operation) (c : Context (Noted σ)), (∀ op ∈ ops, op.scope ≠ none) →
      ∃ looks, Looked c looks (ops.foldl (fun c op => op.run c) c) ∧ ∀ l ∈ looks, l.question.scope ≠ none := by
  refine ⟨fun calls b => ⟨Cache.size_after_le settings calls b, fun scope t a dropped hd => Cache.dropped_eq settings calls hd⟩,
    fun he looks c hlooked hu b => ?_, fun ops c hops => ?_⟩
  · have hbalance := (hlooked.balance he hu).2 b
    exact ⟨hbalance.size, hbalance.lookups, hbalance.first, hbalance.hooking, hbalance.kept⟩
  · obtain ⟨looks, hlooked, hscope⟩ := exists_looked ops c
    refine ⟨looks, hlooked, fun l hl => ?_⟩
    obtain ⟨op, hop, heq⟩ := hscope l hl
    rw [heq]
    exact hops op hop

/-- A cache that keeps one answer on a shelf, and sources that fail at their third question. Two users look up the parents of a page, one
of them looks up those of its parent in vain, and the other has a graph built. -/
theorem accounts_balance_overflow :
    let a := Token.element "page" "site" "1"
    let b := Token.element "page" "site" "2"
    let sources : Faulty := ⟨Ancestry.ofTables (Listing.empty.add a b) Hooks.empty, [2], 0⟩
    let settings : CacheSettings := { maxSize := 1 }
    let start := Context.new (⟨sources, []⟩ : Noted Faulty) settings
    let ops : List Operation := [.lookup ⟨some "u", .native, a⟩, .lookup ⟨some "u", .native, a⟩, .lookup ⟨some "v", .native, a⟩,
      .lookup ⟨some "v", .native, b⟩, .build (some "u") .both a false]
    let c := ops.foldl (fun c op => op.run c) start
    let s := c.cache.shelf .native
    s.hits = 1 ∧ s.misses = 5 ∧ s.resets = 2 ∧ s.entries.size = 0 ∧ ∃ looks, Looked start looks c ∧
      (∀ l ∈ looks, l.question.scope ≠ none) ∧ looks.countP (·.isOn .native) = 6 ∧ looks.countP (·.fails .native) = 1 ∧
      c.sources.questions.countP (·.1 = .native) = 5 := by
  intro a b sources settings start ops c s
  have hops : ∀ op ∈ ops, op.scope ≠ none := by simp [ops, Operation.scope]
  have hcounts : s.hits = 1 ∧ s.misses = 5 ∧ s.resets = 2 ∧ s.entries.size = 0 := by decide +kernel
  obtain ⟨looks, hlooked, hscope⟩ := (accounts_balance settings sources).2.2 ops start hops
  obtain ⟨-, hlookups, hfirst, -, hkept⟩ := (accounts_balance settings sources).2.1 rfl looks c hlooked hscope .native
  obtain ⟨hhits, hmisses, hresets, hentries⟩ := hcounts
  refine ⟨hhits, hmisses, hresets, hentries, looks, hlooked, hscope, ?_, ?_, hfirst.trans hmisses⟩
  · rw [← hlookups, hhits, hmisses]
  · rw [hmisses, hresets, hentries] at hkept
    have hlimit : settings.maxSize = 1 := rfl
    omega

end Context
end Lineage
