import Lineage.Proofs.Graph.Failure
import Lineage.Proofs.Graph.Lazy
import Lineage.Proofs.Graph.Shortest

/-!
# The deepest level

Whatever the sources say, also if they answer differently each time or name new tokens for ever, a graph has no level beyond
`maxLevel + 1`. Looking for levels until there are no more is therefore a loop that ends: `Exhausts` is that loop without a bound on its
rounds, and `expandAll` is one of its runs. A call is refused as too deep exactly if the level beyond the deepest one is there at its
end, and the refusal changes nothing: it is the same for every such call that follows, and the levels that are there can still be had.
-/

namespace Lineage

/-- The failure of a source. -/
def Error.OfSource (e : Error) : Prop := ∃ category token cause, e = .sourceFailed category token cause

theorem Error.OfSource.ne_tooDeep {e : Error} (h : e.OfSource) (root : String) (limit : Nat) : e ≠ .tooDeep root limit := by
  obtain ⟨category, token, cause, rfl⟩ := h
  exact Error.noConfusion

namespace Context

variable {σ : Type} [Sources σ]

/-- An operation that fails only where a source does. -/
abbrev OnlySourcesFail {s α : Type} (r : Run s α) : Prop :=
  Act.Spec (fun _ => True) r (fun _ _ => True) fun e _ => e.OfSource

theorem ask_fails (category : Category) (t : Token) : OnlySourcesFail (ask category t : Run (Context σ) Answer) := by
  intro c _
  unfold ask
  rcases Sources.ask category t c.sources with ⟨cause | a, sources⟩
  · exact ⟨category, t.display, cause, rfl⟩
  · trivial

theorem askBranch_fails (b : Branch) (t : Token) : OnlySourcesFail (askBranch b t : Run (Context σ) Answer) := by
  cases b with
  | native => exact ask_fails .native t
  | hooked =>
    exact (ask_fails .auxiliary t).bind fun _ => (ask_fails .hooking t).bind fun _ => Act.Spec.pure fun _ _ => trivial

theorem parents_fails (scope : Scope) (b : Branch) (t : Token) : OnlySourcesFail (parents scope b t : Run (Context σ) Answer) := by
  have hlookup : OnlySourcesFail (lookup b scope t : Run (Context σ) (Option Cache.Entry)) := fun c _ =>
    (lookup_effect b scope t c).never.weaken (fun _ h => h) (fun _ _ _ => trivial) (fun _ _ h => h) c rfl
  refine hlookup.bind fun found => ?_
  cases found with
  | some entry => exact Act.Spec.pure fun _ _ => trivial
  | none =>
    refine (askBranch_fails b t).bind fun a => Act.Spec.bind (R := fun _ _ => True) ?_ fun _ => Act.Spec.pure fun _ _ => trivial
    exact fun c _ => (keep_effect b scope t a c).never.weaken (fun _ h => h) (fun _ _ _ => trivial) (fun _ _ h => h) c rfl

end Context

namespace Growing

open LevelGraph

variable {σ : Type} [Sources σ] {s s' s'' s₁ : Growing σ} {e : Error} {u : Unit} {k m n : Nat}

/-! ## One expansion -/

theorem answer_fails (qs : List (NodeId × Branch)) : Context.OnlySourcesFail (answer qs : Run (Growing σ) Unit) := by
  induction qs with
  | nil => exact Act.Spec.pure fun _ _ => trivial
  | cons q qs ih =>
    obtain ⟨i, b⟩ := q
    refine Act.Spec.get fun s _ => ?_
    cases s.graph.token? i with
    | none => exact ih.of_state trivial
    | some t =>
      refine Act.Spec.get fun s' _ => Act.Spec.bind (R := fun _ _ => True) ?_ fun a => ?_
      · exact (Context.parents_fails _ b t).on trivial (fun _ _ _ => trivial) fun _ _ h => h
      · exact Act.Spec.bind (R := fun _ _ => True) (Act.Spec.modify fun _ _ => trivial) fun _ => ih

/-- An expansion of any other graph fails only where a source does. -/
theorem expand_fails (h : s.graph.levelCount ≤ maxLevel + 1) (hr : expand s = (.error e, s')) : e.OfSource := by
  have hspec : Act.Spec (· = s) (expand : Run (Growing σ) Unit) (fun _ _ => True) fun e _ => e.OfSource := by
    refine Act.Spec.get fun st hst => ?_
    subst hst
    dsimp only
    rw [if_neg (by omega)]
    refine Act.Spec.bind (R := fun _ _ => True) (Act.Spec.modify fun _ _ => trivial) fun _ => ?_
    exact (answer_fails _).bind fun _ => Act.Spec.modify fun _ _ => trivial
  exact hspec.of_error rfl hr

/-- A failed expansion has nothing to do with the depth of the graph, and finds no level, or it is refused and changes nothing. -/
theorem expand_error_cases (hw : s.graph.WellFormed) (hr : expand s = (.error e, s')) :
    (s.graph.levelCount ≤ maxLevel + 1 ∧ e.OfSource ∧ s'.graph.levels = s.graph.levels ∧ s'.graph.root = s.graph.root) ∨
      (maxLevel + 1 < s.graph.levelCount ∧ e = .tooDeep s.graph.root.display maxLevel ∧ s' = s) := by
  by_cases hle : s.graph.levelCount ≤ maxLevel + 1
  · have hsource := expand_fails hle hr
    have hrising := ((expand_outcome hw).of_error rfl hr).resolve_left fun h => hsource.ne_tooDeep _ _ h.1
    exact Or.inl ⟨hle, hsource, hrising.ext.levels, hrising.ext.root⟩
  · have hlt := Nat.lt_of_not_le hle
    rw [expand_of_deep hlt] at hr
    cases hr
    exact Or.inr ⟨hlt, rfl, rfl⟩

/-! ## What every expansion keeps -/

/-- A well-formed graph with a root, which has no level beyond the one that is refused, and knows of that one when it is there. -/
structure Guarded (root : Token) (g : LevelGraph) : Prop where
  wellFormed : g.WellFormed
  root : g.root = root
  bounded : g.levelCount ≤ maxLevel + 2
  more : g.levelCount = maxLevel + 2 → g.more = true

theorem guarded_start (scope : Scope) (search : Search) (root : Token) : Guarded root (start scope search root) :=
  ⟨wellFormed_start scope search root, rfl, Nat.succ_le_succ (Nat.zero_le _), fun h => nomatch (Nat.succ.inj h : 0 = maxLevel + 1)⟩

/-- An expansion keeps graphs guarded, whatever comes of it. -/
theorem keeps_guarded (root : Token) : Act.Keeps (fun s => Guarded root s.graph) (expand : Run (Growing σ) Unit) := by
  intro s hs
  rcases hr : (expand : Run (Growing σ) Unit) s with ⟨x, s'⟩
  have hw : s'.graph.WellFormed := keeps_wellFormed_expand.of_eq hs.wellFormed hr
  show Guarded root s'.graph
  cases x with
  | error e =>
    rcases expand_error_cases hs.wellFormed hr with ⟨hle, -, hlevels, hroot⟩ | ⟨-, -, rfl⟩
    · have hcount : s'.graph.levelCount = s.graph.levelCount := congrArg Array.size hlevels
      refine ⟨hw, hroot.trans hs.root, ?_, fun h => ?_⟩
      · omega
      · omega
    · exact hs
  | ok u =>
    obtain ⟨hle, g', hrising, hg⟩ := (expand_outcome hs.wellFormed).of_ok rfl hr
    have hroot : s'.graph.root = g'.root := by
      obtain ⟨levels, more, hclose⟩ := g'.exists_closeLevel_eq s.graph.size
      rw [hg, hclose]
    obtain ⟨-, -, ⟨hmore, -, hlevels⟩ | hquiet⟩ := expand_ok_cases hs.wellFormed hr
    · have hcount : s'.graph.levelCount = s.graph.levelCount + 1 := by rw [levelCount, hlevels, Array.size_push, levelCount]
      exact ⟨hw, (hroot.trans hrising.ext.root).trans hs.root, by omega, fun _ => hmore⟩
    · have hcount : s'.graph.levelCount = s.graph.quiet.levelCount := congrArg levelCount hquiet
      have hquiet' : s.graph.quiet.levelCount = s.graph.levelCount := rfl
      exact ⟨hw, (hroot.trans hrising.ext.root).trans hs.root, by omega, fun h => by omega⟩

/-! ## The loop -/

/-- Looking for levels until there are no more, without a bound: `Exhausts k s x s'` says that this ends, with the result `x` and in
the state `s'`, after `k` expansions that did not fail. -/
inductive Exhausts : Nat → Growing σ → Except Error Unit → Growing σ → Prop where
  | failed {s s' : Growing σ} {e : Error} : expand s = (.error e, s') → Exhausts 0 s (.error e) s'
  | done {s s' : Growing σ} : expand s = (.ok (), s') → s'.graph.more = false → Exhausts 1 s (.ok ()) s'
  | again {k : Nat} {s s' s'' : Growing σ} {x : Except Error Unit} :
      expand s = (.ok (), s') → s'.graph.more = true → Exhausts k s' x s'' → Exhausts (k + 1) s x s''

/-- The loop that is given rounds enough to reach the deepest level ends as the one without a bound, and no level is expanded twice. -/
theorem exists_exhausts {root : Token} (hs : Guarded root s.graph) (hm : maxLevel + 2 ≤ s.graph.levelCount + m) :
    ∃ k x s', Exhausts k s x s' ∧ pursue m s = (x, s') ∧ s.graph.levelCount + k ≤ maxLevel + 2 := by
  induction m generalizing s with
  | zero =>
    have hr := expand_of_deep (s := s) (by omega)
    refine ⟨0, _, _, .failed hr, ?_, hs.bounded⟩
    rw [pursue, Act.bind_of_error hr]
  | succ m ih =>
    rcases hr : (expand : Run (Growing σ) Unit) s with ⟨e | u, s'⟩
    · refine ⟨0, _, _, .failed hr, ?_, hs.bounded⟩
      rw [pursue, Act.bind_of_error hr]
    · have hs' := (keeps_guarded root).of_eq hs hr
      obtain ⟨-, hle, ⟨hmore, -, hlevels⟩ | hquiet⟩ := expand_ok_cases hs.wellFormed hr
      · have hcount : s'.graph.levelCount = s.graph.levelCount + 1 := by rw [levelCount, hlevels, Array.size_push, levelCount]
        obtain ⟨k, x, s'', hloop, hpursue, hk⟩ := ih hs' (by omega)
        refine ⟨k + 1, x, s'', .again hr hmore hloop, ?_, by omega⟩
        rw [pursue, Act.bind_of_ok hr, expandTimes_of_more hmore, hpursue]
      · have hmore : s'.graph.more = false := congrArg LevelGraph.more hquiet
        refine ⟨1, _, _, .done hr hmore, ?_, by omega⟩
        rw [pursue, Act.bind_of_ok hr, expandTimes_of_not_more hmore]

/-- When the loop ends without a failure, there are no more levels. -/
theorem Exhausts.more_eq {x : Except Error Unit} (h : Exhausts k s x s') (hx : x = .ok u) : s'.graph.more = false := by
  induction h with
  | failed _ => cases hx
  | done _ hmore => exact hmore
  | again _ _ _ ih => exact ih hx

/-- So when looking for all levels does not fail, there are no more. -/
theorem more_of_expandAll {root : Token} (hs : Guarded root s.graph) (hr : expandAll s = (.ok u, s')) : s'.graph.more = false := by
  obtain ⟨k, x, s₁, hloop, hpursue, -⟩ := exists_exhausts hs (Nat.le_add_left (maxLevel + 2) _)
  cases hpursue.symm.trans hr
  exact hloop.more_eq rfl

/-! ## Calls -/

/-- Whether a call may need a level beyond the one that is refused. -/
def Call.Unlimited : Call → Prop
  | .level n => maxLevel + 1 < n
  | .all => True

theorem pursues_guarded {root : Token} (h : Pursues k s s₁) (hs : Guarded root s.graph) : Guarded root s₁.graph := by
  induction h with
  | refl s => exact hs
  | step hr _ _ ih => exact ih ((keeps_guarded root).of_eq hs hr)

/-- A call fails in a state that its expansions led to. There either a source failed, before the graph was too deep, or the expansion
was refused, and left that state as it was. -/
theorem Call.error_cases {root : Token} {call : Call} (hs : Guarded root s.graph) (hr : call.run s = (.error e, s')) :
    (e.OfSource ∧ s'.graph.levelCount ≤ maxLevel + 1) ∨
      (call.Unlimited ∧ e = .tooDeep root.display maxLevel ∧ s'.graph.levelCount = maxLevel + 2 ∧ ∃ k, Pursues k s s') := by
  obtain ⟨hstarts, hpursue⟩ := Call.starts_of_error hr
  obtain ⟨k, s₁, hk, hpursues, hfail⟩ := pursues_of_error hpursue
  have hs₁ := pursues_guarded hpursues hs
  rcases expand_error_cases hs₁.wellFormed hfail with ⟨hle, hsource, hlevels, -⟩ | ⟨hlt, he, rfl⟩
  · have hcount : s'.graph.levelCount = s₁.graph.levelCount := congrArg Array.size hlevels
    exact Or.inl ⟨hsource, by omega⟩
  · refine Or.inr ⟨?_, ?_, Nat.le_antisymm hs₁.bounded hlt, k, hpursues⟩
    · cases call with
      | level n =>
        have hcount := (hpursues.levelCount_eq hs.wellFormed).2
        obtain ⟨-, hle⟩ := hstarts
        have hk' : k ≤ n - s.graph.levelCount := hk
        show maxLevel + 1 < n
        omega
      | all => trivial
    · rw [he, hs₁.root]

/-- A call that needs the level which is refused does not end well while that level is there. -/
theorem Call.not_ok_of_deep {root : Token} {call : Call} (hs : Guarded root s.graph) (hcall : call.Unlimited)
    {a : Option (List NodeId)} (hr : call.run s = (.ok a, s')) : s'.graph.levelCount ≠ maxLevel + 2 := by
  intro hcount
  have hmore : s'.graph.more = true := ((keeps_call (keeps_guarded root) call).of_eq hs hr).more hcount
  by_cases hstarts : call.Starts s.graph
  · rw [Call.run_of_starts hstarts] at hr
    have hbudget : maxLevel + 2 ≤ s.graph.levelCount + call.budget s.graph := by
      cases call with
      | level n =>
        have hle : s.graph.levelCount ≤ n := hstarts.2
        have hn : maxLevel + 1 < n := hcall
        show maxLevel + 2 ≤ s.graph.levelCount + (n - s.graph.levelCount)
        omega
      | all => exact Nat.le_add_left _ _
    obtain ⟨k, x, s₁, hloop, hpursue, -⟩ := exists_exhausts hs hbudget
    rw [hpursue] at hr
    cases x with
    | error e => cases hr
    | ok u =>
      cases hr
      rw [hloop.more_eq rfl] at hmore
      cases hmore
  · rw [Call.run_of_not_starts hstarts] at hr
    cases hr
    cases call with
    | level n => exact hstarts ⟨hmore, by have hn : maxLevel + 1 < n := hcall; omega⟩
    | all => exact hstarts trivial

/-- On a graph with the level that is refused, a call that needs more is refused, and leaves everything as it was. -/
theorem Call.run_of_deep {root : Token} {call : Call} (hs : Guarded root s.graph) (hcount : s.graph.levelCount = maxLevel + 2)
    (hcall : call.Unlimited) : call.run s = (.error (.tooDeep root.display maxLevel), s) := by
  rcases hr : call.run s with ⟨e | a, s'⟩
  · have hpursue := (Call.starts_of_error hr).2
    have hfail := expand_of_deep (s := s) (by omega)
    rw [hs.root] at hfail
    rw [pursue, Act.bind_of_error hfail] at hpursue
    cases hpursue
    rfl
  · by_cases hstarts : call.Starts s.graph
    · rw [Call.run_of_starts hstarts, pursue, Act.bind_of_error (expand_of_deep (s := s) (by omega))] at hr
      cases hr
    · exact absurd hcount (Call.not_ok_of_deep hs hcall (Call.run_of_not_starts hstarts))

end Growing

namespace LevelGraph

open Growing

variable {σ τ : Type} [Sources σ] [Sources τ] {g : LevelGraph}

/-- The context of a graph when it begins to grow: the start of its building is logged. -/
def begun (search : Search) (root : Token) (onlyOne : Bool) (c : Context σ) : Context σ :=
  { c with log := c.log.push (Log.started target buildOp
      [(Log.rootField, .text root.display), ("search", .text search.debug), ("lazy", .flag onlyOne)]) }

/-- The building of a graph ends as its expansion does from the root alone, and leaves the context as that does, but for the log. -/
theorem build_eq_of_expansion {scope : Scope} {search : Search} {root : Token} (onlyOne : Bool) {c : Context σ}
    {x : Except Error Unit} {s : Growing σ}
    (h : (if onlyOne then expand else expandAll : Run (Growing σ) Unit) ⟨start scope search root, begun search root onlyOne c⟩ =
      (x, s)) :
    (build scope search root onlyOne c).1 = (x.map fun _ => s.graph) ∧
      (build scope search root onlyOne c).2.sources = s.context.sources ∧
      (build scope search root onlyOne c).2.cache = s.context.cache := by
  have hgrow : grow (start scope search root) onlyOne (begun search root onlyOne c) = (x.map fun _ => s.graph, s.context) := by
    unfold grow
    rw [h]
    cases x <;> rfl
  have hspec : Act.Spec (· = begun search root onlyOne c) (grow (start scope search root) onlyOne)
      (fun g c' => (x.map fun _ => s.graph) = .ok g ∧ c'.sources = s.context.sources ∧ c'.cache = s.context.cache)
      fun e c' => (x.map fun _ => s.graph) = .error e ∧ c'.sources = s.context.sources ∧ c'.cache = s.context.cache := by
    rintro _ rfl
    rw [hgrow]
    cases x <;> exact ⟨rfl, rfl, rfl⟩
  have hbuild : Act.Spec (· = c) (build scope search root onlyOne)
      (fun g c' => (x.map fun _ => s.graph) = .ok g ∧ c'.sources = s.context.sources ∧ c'.cache = s.context.cache)
      fun e c' => (x.map fun _ => s.graph) = .error e ∧ c'.sources = s.context.sources ∧ c'.cache = s.context.cache :=
    Context.loggedBy_spec_of_start hspec (Act.Spec.modify fun c' hc' => by rw [hc']; rfl) (fun g _ => Act.Spec.modify fun _ h => h)
      fun e _ => Act.Spec.modify fun _ h => h
  obtain ⟨g, c', hb, hx, hc'⟩ | ⟨e, c', hb, hx, hc'⟩ := hbuild.outcome rfl
  · rw [hb, hx]
    exact ⟨rfl, hc'⟩
  · rw [hb, hx]
    exact ⟨rfl, hc'⟩

/-- The building of a complete graph is the loop without a bound, from the root alone. -/
theorem build_exhausts (scope : Scope) (search : Search) (root : Token) (c : Context σ) :
    ∃ k x s, Exhausts k ⟨start scope search root, begun search root false c⟩ x s ∧
      (build scope search root false c).1 = (x.map fun _ => s.graph) ∧ k ≤ maxLevel + 1 := by
  obtain ⟨k, x, s, hloop, hpursue, hk⟩ :=
    exists_exhausts (s := ⟨start scope search root, begun search root false c⟩) (m := maxLevel + 2)
      (guarded_start scope search root) (Nat.le_add_left _ _)
  have hk' : 1 + k ≤ maxLevel + 2 := hk
  exact ⟨k, x, s, hloop, (build_eq_of_expansion false hpursue).1, by omega⟩

/-- Every graph that there can be is guarded. -/
theorem Reachable.guarded (h : g.Reachable) : Guarded g.root g := by
  have hguarded : ∃ root, Guarded root g := by
    refine Reachable.holds (P := fun g => ∃ root, Guarded root g) (fun scope search root => ⟨root, ?_⟩) ?_ h
    · exact guarded_start scope search root
    · rintro σ _ s ⟨root, hs⟩
      exact ⟨root, keeps_guarded root s hs⟩
  obtain ⟨root, hg⟩ := hguarded
  rw [hg.root]
  exact hg

/-- How deep graphs become, whatever the sources say. There is no level beyond `maxLevel + 1`. The building of a complete graph, and
looking for all levels of one, end after as many expansions at most as there are levels to be found. A call for all levels, or for a level
beyond `maxLevel + 1`, is refused as too deep exactly if level `maxLevel + 1` is there when it ends, and no other call is. A refusal
leaves everything as the last expansion left it: all such calls are refused again, and every level up to `maxLevel + 1` is answered,
without asking anybody. -/
theorem depth_limited (h : g.Reachable) (c : Context σ) :
    (∀ n, (g.level? n).isSome → n ≤ maxLevel + 1) ∧
    (∀ scope search root, ∃ k x s, Exhausts k ⟨start scope search root, begun search root false c⟩ x s ∧
      (build scope search root false c).1 = (x.map fun _ => s.graph) ∧ k ≤ maxLevel + 1) ∧
    (∃ k x s, Exhausts k ⟨g, c⟩ x s ∧ Growing.expandAll ⟨g, c⟩ = (x, s) ∧ g.levelCount + k ≤ maxLevel + 2) ∧
    (∀ call : Call, call.Unlimited → ((call.run ⟨g, c⟩).1 = .error (.tooDeep g.root.display maxLevel) ↔
      ((call.run ⟨g, c⟩).2.graph.level? (maxLevel + 1)).isSome)) ∧
    ∀ (call : Call) root limit s, call.run ⟨g, c⟩ = (.error (.tooDeep root limit), s) →
      (call.Unlimited ∧ root = g.root.display ∧ limit = maxLevel ∧ s.graph.more = true ∧ ∃ k, Pursues k ⟨g, c⟩ s) ∧
      ∀ c' : Context τ,
        (∀ call' : Call, call'.Unlimited → call'.run ⟨s.graph, c'⟩ = (.error (.tooDeep root limit), ⟨s.graph, c'⟩)) ∧
        ∀ n ≤ maxLevel + 1, ∃ ids, s.graph.level? n = some ids ∧
          Growing.level? n ⟨s.graph, c'⟩ = (.ok (some ids), ⟨s.graph, c'⟩) := by
  have hg := h.guarded
  refine ⟨fun n hn => ?_, fun scope search root => build_exhausts scope search root c, ?_, fun call hcall => ?_,
    fun call root limit s hr => ?_⟩
  · have hlt := isSome_level?_iff.1 hn
    have hbounded := hg.bounded
    omega
  · exact exists_exhausts (s := ⟨g, c⟩) hg (Nat.le_add_left _ _)
  · rcases hr : call.run ⟨g, c⟩ with ⟨x, s⟩
    have hafter : Guarded g.root s.graph := (keeps_call (keeps_guarded g.root) call).of_eq hg hr
    show x = _ ↔ (s.graph.level? (maxLevel + 1)).isSome
    rw [isSome_level?_iff]
    cases x with
    | error e =>
      obtain ⟨hsource, hle⟩ | ⟨-, rfl, hcount, -⟩ := Call.error_cases (s := ⟨g, c⟩) hg hr
      · exact ⟨fun he => absurd (Except.error.inj he) (hsource.ne_tooDeep _ _), fun hlt => absurd hle (Nat.not_le.2 hlt)⟩
      · exact ⟨fun _ => by omega, fun _ => rfl⟩
    | ok a =>
      have hnot := Call.not_ok_of_deep (s := ⟨g, c⟩) hg hcall hr
      exact ⟨fun he => (nomatch he), fun hlt => absurd (Nat.le_antisymm hafter.bounded hlt) hnot⟩
  · obtain ⟨hsource, -⟩ | ⟨hcall, he, hcount, hpursues⟩ := Call.error_cases (s := ⟨g, c⟩) hg hr
    · exact absurd rfl (hsource.ne_tooDeep _ _)
    · have hafter : Guarded g.root s.graph := (keeps_call (keeps_guarded g.root) call).of_eq hg hr
      cases he
      refine ⟨⟨hcall, rfl, rfl, hafter.more hcount, hpursues⟩, fun c' => ⟨fun call' hcall' => ?_, fun n hn => ?_⟩⟩
      · exact Call.run_of_deep (s := ⟨s.graph, c'⟩) hafter hcount hcall'
      · obtain ⟨ids, hids⟩ := Option.isSome_iff_exists.1 (isSome_level?_iff.2 (show n < s.graph.levelCount by omega))
        have hstarts : ¬(Call.level n).Starts s.graph := fun hs => absurd hs.2 (by omega)
        refine ⟨ids, hids, ?_⟩
        have hrun := Call.run_of_not_starts (s := ⟨s.graph, c'⟩) hstarts
        rwa [Call.answer, hids] at hrun

end LevelGraph

namespace Ancestry

/-- Ancestors without end: every token has a parent with a longer id. -/
def endless : Ancestry
  | .native, x => some [.element x.type x.source (x.id ++ "1")]
  | _, _ => none

theorem parent_endless_iff {x y : Identity} : endless.Parent .both x y ↔ y = ⟨x.type, x.source, x.id ++ "1"⟩ := by
  rw [parent_both_iff]
  constructor
  · rintro ⟨_ | _ | _, t, ht, rfl⟩
    · rw [List.mem_singleton.1 ht]
      rfl
    · cases ht
    · cases ht
  · rintro rfl
    exact ⟨.native, _, List.mem_cons_self, rfl⟩

/-- A step adds one letter. -/
theorem length_of_chain_endless {n : Nat} {x y : Identity} (h : endless.Chain .both n x y) : y.id.length = x.id.length + n := by
  induction h with
  | refl => rfl
  | snoc _ hp ih =>
    rw [parent_endless_iff.1 hp, String.length_append, ih]
    rfl

/-- There is something at every distance. -/
theorem exists_distance_endless (n : Nat) (x : Identity) : ∃ y, endless.Distance .both n x y := by
  have hchain : ∃ y, endless.Chain .both n x y := by
    induction n with
    | zero => exact ⟨x, Chain.refl x⟩
    | succ n ih =>
      obtain ⟨y, hy⟩ := ih
      exact ⟨_, hy.snoc (parent_endless_iff.2 rfl)⟩
  obtain ⟨y, hy⟩ := hchain
  refine ⟨y, hy, fun m hm => ?_⟩
  have hn := length_of_chain_endless hy
  have hm := length_of_chain_endless hm
  omega

end Ancestry

namespace LevelGraph

open Growing

/-- A page with ancestors without end, begun lazily. Looking for all its levels is refused, and leaves a graph with level
`maxLevel + 1`. That one is answered, and the next is refused. -/
theorem depth_limited_endless :
    let root := Token.element "page" "site" "1"
    let c := Context.ideal Ancestry.endless
    ∃ g c', build none .both root true c = (.ok g, c') ∧
      ∃ s, Call.all.run ⟨g, c'⟩ = (.error (.tooDeep root.display maxLevel), s) ∧
        (Call.level (maxLevel + 2)).run s = (.error (.tooDeep root.display maxLevel), s) ∧
        ∃ ids, Growing.level? (maxLevel + 1) s = (.ok (some ids), s) := by
  intro root c
  have hc : c.Stable Ancestry.endless := Context.stable_ideal _
  obtain ⟨x, hx⟩ := Ancestry.exists_distance_endless (maxLevel + 1) root.identity
  obtain ⟨_, hdeep⟩ := build_eq_tooDeep hc none hx (Nat.lt_succ_self _)
  have hwave := ((build_stage Ancestry.endless none .both root).of_error hc hdeep).1.2
  obtain ⟨g, c', hb⟩ := exists_build_lazy hc none .both root
  obtain ⟨rfl, hc'⟩ := (build_lazy Ancestry.endless none .both root).of_ok hc hb
  have hends := expandAll_ends hc' (d := 1) (Nat.succ_le_succ (Nat.zero_le _)) none .both root
  obtain ⟨-, s, hs⟩ := hends.resolve_left fun h => hwave h.1
  have hall : Call.all.run ⟨_, c'⟩ = (.error (.tooDeep root.display maxLevel), s) := Act.bind_of_error hs
  obtain ⟨-, -, -, -, hrefused⟩ := depth_limited (τ := Ancestry) (Reachable.built hb) c'
  obtain ⟨-, hafter⟩ := hrefused .all _ _ s hall
  obtain ⟨hagain, hlevels⟩ := hafter s.context
  obtain ⟨ids, -, hids⟩ := hlevels (maxLevel + 1) (Nat.le_refl _)
  exact ⟨_, c', hb, s, hall, hagain (.level (maxLevel + 2)) (Nat.lt_succ_self _), ids, hids⟩

end LevelGraph
end Lineage
