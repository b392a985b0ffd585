import Lineage.Proofs.Graph.Transparent
import Lineage.Proofs.Session.Keeping
import Lineage.Proofs.Sources

/-!
# The cache is transparent to sessions

A session is compared with the ideal one of the same ancestry, whose sources never fail and whose cache is switched off. In the ideal
session exactly those commands are done that did not fail in the first. As long as no answer is put into the cache by hand, the two
agree on who is asking and on every graph that has not failed to grow since it was built; so what a question, a build or the growing
of such a graph shows in the first session, it shows in the ideal one. How large the cache is, when it was emptied and what failed
before does not matter.
-/

namespace Lineage.Session

/-- What the commands of a session came to. -/
structure Course (σ : Type) where
  session : Session σ
  /-- the commands that did not fail -/
  done : List Command
  /-- the graphs that have failed to grow since they were built -/
  spoiled : List String

/-- The spoiled graphs after a command that did not fail: a graph that was built anew is sound again. -/
def Command.mended : Command → List String → List String
  | .build name .., spoiled => spoiled.filter (· ≠ name)
  | _, spoiled => spoiled

/-- Whether a command asks for parents, or makes a graph or lets it grow. -/
def Command.asks : Command → Bool
  | .parents .. | .build .. | .expandAll _ | .findLevel .. => true
  | _ => false

variable {σ : Type} [Sources σ]

/-- One more command. -/
def Course.step (c : Course σ) (cmd : Command) : Course σ :=
  match cmd.run c.session with
  | (.ok _, s) => ⟨s, c.done ++ [cmd], cmd.mended c.spoiled⟩
  | (.error _, s) => ⟨s, c.done, cmd.grown?.toList ++ c.spoiled⟩

/-- What the commands of a script come to, one after the other. -/
def course (s : Session σ) (script : List Command) : Course σ := script.foldl Course.step ⟨s, [], []⟩

/-- The session that commands leave behind. -/
def replay (s : Session σ) (script : List Command) : Session σ := script.foldl (fun s cmd => (cmd.run s).2) s

/-- The ideal session of a caller who is always the same: nothing fails, and nothing is cached. -/
def ideal (f : Ancestry) (user : Scope) : Session Ancestry := new f .disabled user

/-- A session beside one whose sources never fail: they are of one ancestry and agree on who is asking and on sound graphs. -/
structure Beside (f : Ancestry) (spoiled : List String) (s : Session σ) (s₀ : Session Ancestry) : Prop where
  context : Context.Beside f s.context s₀.context
  graphs : ∀ n, n ∉ spoiled → s.graphs.find? n = s₀.graphs.find? n
  caller : s.caller = s₀.caller
  login : s.login = s₀.login

variable {f : Ancestry} {spoiled spoiled' : List String} {s s' : Session σ} {s₀ s₀' : Session Ancestry} {cmd : Command}

/-! ## Commands that are done on both sides -/

theorem inContext_refines {α : Type} {r : Run (Context σ) α} {q : Run (Context Ancestry) α}
    (h : Act.Refines (Context.Beside f) r q) : Act.Refines (Beside f spoiled) (inContext r) (inContext q) :=
  (h.mapError _).on (fun _ _ hs => hs.context) fun _ _ _ _ hs hc => ⟨hc, hs.graphs, hs.caller, hs.login⟩

/-- A sound graph is the same on both sides. -/
theorem graph_refines {n : String} (hn : n ∉ spoiled) :
    Act.Refines (Beside f spoiled) (graph n : Doing σ LevelGraph) (graph n : Doing Ancestry LevelGraph) := by
  refine Act.Refines.get fun s s₀ hs => ?_
  rw [← hs.graphs n hn]
  cases s.graphs.find? n with
  | some g => exact Act.Refines.pure g
  | none =>
    intro st st₀ _ a st' h
    cases h

theorem grow_refines {α : Type} {n : String} (hn : n ∉ spoiled) {r : Run (Growing σ) α} {q : Run (Growing Ancestry) α}
    (h : Act.Refines (Growing.Beside f) r q) : Act.Refines (Beside f spoiled) (grow n r) (grow n q) := by
  refine (graph_refines hn).bind fun g => ?_
  intro s s₀ hs a s' ha
  rcases hr : r ⟨g, s.context⟩ with ⟨e | b, st⟩
  · simp only [hr] at ha
    cases ha
  · simp only [hr] at ha
    cases ha
    obtain ⟨st₀, hq, hg, hc⟩ := h ⟨g, s.context⟩ ⟨g, s₀.context⟩ ⟨rfl, hs.context⟩ _ st hr
    refine ⟨{ s₀ with context := st₀.context, graphs := s₀.graphs.set n st₀.graph }, ?_, hc, fun m hm => ?_, hs.caller, hs.login⟩
    · simp only [hq]
      rfl
    show (s.graphs.set n st.graph).find? m = (s₀.graphs.set n st₀.graph).find? m
    rw [Table.find?_set, Table.find?_set, hg, hs.graphs m hm]

theorem keepGraph_refines (n : String) (g : LevelGraph) :
    Act.Refines (Beside f spoiled) (keepGraph n g : Doing σ Unit) (keepGraph n g : Doing Ancestry Unit) := by
  refine Act.Refines.modify fun s s₀ hs => ⟨hs.context, fun m hm => ?_, hs.caller, hs.login⟩
  show (s.graphs.set n g).find? m = (s₀.graphs.set n g).find? m
  rw [Table.find?_set, Table.find?_set, hs.graphs m hm]

/-- What is asked, built or grown on one side and does not fail shows the same on the other, if the graph that grows is sound. -/
theorem Command.refines (ha : cmd.asks = true) (hn : ∀ n, cmd.grown? = some n → n ∉ spoiled) :
    Act.Refines (Beside f spoiled) (cmd.run : Doing σ Shown) (cmd.run : Doing Ancestry Shown) := by
  cases cmd with
  | parents b scope t =>
    refine Act.Refines.get fun s s₀ hs => ?_
    exact (inContext_refines (Context.parents_refines _ _ b t)).bind fun a => Act.Refines.pure _
  | build n root search onlyOne =>
    refine Act.Refines.get fun s s₀ hs => ?_
    have hscope : s.scope = s₀.scope := by rw [scope, scope, hs.caller, hs.login]
    rw [hscope]
    refine (inContext_refines (LevelGraph.build_refines _ search root onlyOne)).bind fun g => ?_
    exact (keepGraph_refines n g).bind fun _ => Act.Refines.pure _
  | expandAll n =>
    refine (grow_refines (hn n rfl) Growing.expandAll_refines).bind fun _ => ?_
    exact (graph_refines (hn n rfl)).bind fun _ => Act.Refines.pure _
  | findLevel n k =>
    refine (grow_refines (hn n rfl) (Growing.level?_refines k)).bind fun _ => ?_
    exact (graph_refines (hn n rfl)).bind fun _ => Act.Refines.pure _
  | _ => cases ha

/-! ## One command -/

/-- Sessions that come after sessions side by side are side by side, with the graphs spoiled that may have changed. -/
theorem Beside.follows (h : Beside f spoiled s s₀) {name name₀ : Option String} (hs : Follows f False name s s')
    (hs₀ : Follows f True name₀ s₀ s₀')
    (hn : ∀ n, n ∉ spoiled' → n ∉ spoiled ∧ name ≠ some n ∧ name₀ ≠ some n) : Beside f spoiled' s' s₀' where
  context := ⟨hs.faithful, hs₀.faithful⟩
  graphs n hn' := by
    obtain ⟨h1, h2, h3⟩ := hn n hn'
    rw [hs.graphs n h2, hs₀.graphs n h3, h.graphs n h1]
  caller := by rw [hs.caller, hs₀.caller, h.caller]
  login := by rw [hs.login, hs₀.login, h.login]

/-- A build that does not fail shows the graph that it keeps. -/
theorem exists_of_build {n : String} {root : Token} {search : Search} {onlyOne : Bool} {shown : Shown}
    (h : (Command.build n root search onlyOne).run s = (.ok shown, s')) :
    ∃ g, shown = .summary g ∧ s'.graphs.find? n = some g := by
  obtain ⟨s₁, _, h₁, h⟩ := Act.exists_of_bind_eq_ok h
  obtain ⟨g, s₂, -, h⟩ := Act.exists_of_bind_eq_ok h
  obtain ⟨_, s₃, hk, h⟩ := Act.exists_of_bind_eq_ok h
  cases hk
  cases h
  refine ⟨g, rfl, ?_⟩
  show (s₂.graphs.set n g).find? n = some g
  rw [Table.find?_set, if_pos rfl]

/-- A build that does not fail makes the same graph on both sides, whether the one that had its name was sound or not. -/
theorem Beside.build (h : Beside f spoiled s s₀) {n : String} {root : Token} {search : Search} {onlyOne : Bool} {shown : Shown}
    (hr : (Command.build n root search onlyOne).run s = (.ok shown, s')) :
    Beside f ((Command.build n root search onlyOne).mended spoiled) s' ((Command.build n root search onlyOne).run s₀).2 := by
  obtain ⟨s₀', hr₀, h'⟩ := Command.refines rfl (fun m hm => by cases hm) s s₀ h shown s' hr
  rw [hr₀]
  refine ⟨h'.context, fun m hm => ?_, h'.caller, h'.login⟩
  by_cases hmn : m = n
  · subst hmn
    obtain ⟨g, rfl, hg⟩ := exists_of_build hr
    obtain ⟨g₀, hg', hg₀⟩ := exists_of_build hr₀
    cases hg'
    rw [hg, hg₀]
  · refine h'.graphs m fun hms => hm ?_
    exact List.mem_filter.2 ⟨hms, decide_eq_true hmn⟩

/-- A command that did not fail is done on both sides. -/
theorem Beside.done (h : Beside f spoiled s s₀) (hf : cmd.feeds = false) {shown : Shown}
    (hr : cmd.run s = (.ok shown, s')) : Beside f (cmd.mended spoiled) s' (cmd.run s₀).2 := by
  by_cases ha : cmd.arranges = true
  · cases cmd with
    | callAs user =>
      cases hr
      exact ⟨h.context, h.graphs, rfl, h.login⟩
    | callAsLoggedIn =>
      cases hr
      exact ⟨h.context, h.graphs, rfl, h.login⟩
    | login user =>
      cases hr
      exact ⟨h.context, h.graphs, h.caller, rfl⟩
    | build n root search onlyOne => exact h.build hr
    | _ => cases ha
  · rw [Bool.not_eq_true] at ha
    have hm : cmd.mended spoiled = spoiled := by
      cases cmd with
      | build => cases ha
      | _ => rfl
    have hs : Follows f False cmd.grown? s s' := by
      have := Command.keeps hf ha s (Follows.refl h.context.1 cmd.grown?)
      rwa [hr] at this
    have hs₀ : Follows f True cmd.grown? s₀ (cmd.run s₀).2 := Command.keeps hf ha s₀ (Follows.refl h.context.2 cmd.grown?)
    rw [hm]
    cases hg : cmd.grown? with
    | none =>
      rw [hg] at hs hs₀
      exact h.follows hs hs₀ fun n hn => ⟨hn, nofun, nofun⟩
    | some name =>
      rw [hg] at hs hs₀
      by_cases hsp : name ∈ spoiled
      · have hne : ∀ n, n ∉ spoiled → some name ≠ some n := fun n hn he => hn (Option.some.inj he ▸ hsp)
        exact h.follows hs hs₀ fun n hn => ⟨hn, hne n hn, hne n hn⟩
      · have hasks : cmd.asks = true := by
          cases cmd with
          | expandAll | findLevel => rfl
          | _ => cases hg
        obtain ⟨s₀', hr₀, h'⟩ := Command.refines hasks (fun n hn => by
          rw [hg] at hn
          cases hn
          exact hsp) s s₀ h shown s' hr
        rwa [hr₀]

/-- A command that failed is done on one side only, and spoils the graph that it should have let grow. -/
theorem Beside.failed (h : Beside f spoiled s s₀) (hf : cmd.feeds = false) {e : Failure} (hr : cmd.run s = (.error e, s')) :
    Beside f (cmd.grown?.toList ++ spoiled) s' s₀ := by
  have hs₀ : Follows f True none s₀ s₀ := Follows.refl h.context.2 none
  by_cases ha : cmd.arranges = true
  · cases cmd with
    | callAs | callAsLoggedIn | login => cases hr
    | build n root search onlyOne =>
      exact h.follows (follows_of_build h.context.1 hr) hs₀ fun m hm => ⟨hm, nofun, nofun⟩
    | _ => cases ha
  · rw [Bool.not_eq_true] at ha
    have hs : Follows f False cmd.grown? s s' := by
      have := Command.keeps hf ha s (Follows.refl h.context.1 cmd.grown?)
      rwa [hr] at this
    refine h.follows hs hs₀ fun n hn => ?_
    rw [List.mem_append, not_or, Option.mem_toList] at hn
    exact ⟨hn.2, hn.1, nofun⟩

/-! ## Scripts -/

/-- Commands that do not feed the cache keep a session beside the one in which those are done that did not fail. -/
theorem beside_course (hs : Beside f [] s s₀) {script : List Command}
    (hf : ∀ cmd ∈ script, cmd.feeds = false) :
    Beside f (course s script).spoiled (course s script).session (replay s₀ (course s script).done) := by
  suffices ∀ c : Course σ, Beside f c.spoiled c.session (replay s₀ c.done) →
      Beside f (script.foldl Course.step c).spoiled (script.foldl Course.step c).session
        (replay s₀ (script.foldl Course.step c).done) from this ⟨s, [], []⟩ hs
  intro c hc
  induction script generalizing c with
  | nil => exact hc
  | cons cmd script ih =>
    refine ih (fun cmd' h' => hf cmd' (List.mem_cons_of_mem cmd h')) (c.step cmd) ?_
    have hcmd := hf cmd List.mem_cons_self
    unfold Course.step
    rcases hr : cmd.run c.session with ⟨e | shown, s'⟩
    · exact hc.failed hcmd hr
    · show Beside f _ s' (replay s₀ (c.done ++ [cmd]))
      rw [replay, List.foldl_append]
      exact hc.done hcmd hr

/-- A session whose sources agree with an ancestry when they answer, and whose cache starts empty, shows what the ideal session shows:
after any commands that put nothing into the cache by hand, a question, a build, or the growing of a graph that has not failed to grow
since it was built either fails or shows what it shows without a cache and without failures, once the commands that did not fail are
done there. -/
theorem run_ideal_of_run {sources : σ} (h : Sources.Agree f sources) (settings : CacheSettings) (user : Scope)
    (script : List Command) (hf : ∀ cmd ∈ script, cmd.feeds = false) (cmd : Command) (ha : cmd.asks = true)
    (hn : ∀ n, cmd.grown? = some n → n ∉ (course (new sources settings user) script).spoiled) (shown : Shown)
    (s' : Session σ) (hr : cmd.run (course (new sources settings user) script).session = (.ok shown, s')) :
    ∃ s₀', cmd.run (replay (ideal f user) (course (new sources settings user) script).done) = (.ok shown, s₀') := by
  have hs : Beside f [] (new sources settings user) (ideal f user) :=
    ⟨⟨Context.faithful_new settings h False.elim, Context.stable_ideal f⟩, fun _ _ => rfl, rfl, rfl⟩
  obtain ⟨s₀', hr₀, -⟩ := Command.refines ha hn _ _ (beside_course hs hf) shown s' hr
  exact ⟨s₀', hr₀⟩

/-- A page below a page below a third one, from sources that fail at the first question, with room for one answer in the cache: the
first build fails, the shelves overflow while the second graph grows, and its second level is that of the ideal session. -/
theorem run_ideal_of_run_faulty :
    let a := Token.element "page" "site" "1"
    let b := Token.element "page" "site" "2"
    let f := Ancestry.ofTables ((Listing.empty.add a b).add b (Token.element "page" "site" "3")) Hooks.empty
    let script : List Command := [.build "pages" a .both false, .parents .native (some (some "other")) b, .flush,
      .build "pages" a .both true]
    let c := course (new (Faulty.mk f [0] 0) { maxSize := 1 } (some "user")) script
    ∃ shown s' s₀', (Command.findLevel "pages" 2).run c.session = (.ok shown, s') ∧
      (Command.findLevel "pages" 2).run (replay (ideal f (some "user")) c.done) = (.ok shown, s₀') := by
  intro a b f script c
  have hsound : c.spoiled = [] := by decide +kernel
  have hok : (((Command.findLevel "pages" 2).run c.session).1.toOption.map fun _ => true) = some true := by decide +kernel
  obtain ⟨shown, s', hr, -⟩ := Act.exists_of_map_eq_some hok
  obtain ⟨s₀', hr₀⟩ := run_ideal_of_run (Faulty.agree (Faulty.mk f [0] 0)) { maxSize := 1 } (some "user") script
    (by decide) (.findLevel "pages" 2) rfl (fun n _ hn => by
      rw [show (course _ script).spoiled = [] from hsound] at hn
      cases hn) shown s' hr
  exact ⟨shown, s', s₀', hr, hr₀⟩

end Lineage.Session
