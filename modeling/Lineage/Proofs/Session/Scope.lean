import Lineage.Proofs.Cache.Scope
import Lineage.Proofs.Graph.Abreast
import Lineage.Proofs.Session.Renaming

/-!
# A graph keeps its scope

Who is logged in may change while a graph is in use. The scope of a graph is that of the caller at the time when it was built, and all
its lookups are for this scope, whoever asks for its levels later. So other users are told nothing and nothing is kept for them, and it
makes no difference to the graph and to the context when somebody logs in or out between its calls.
-/

namespace Lineage

theorem LevelGraph.under_self {g : LevelGraph} {scope : Scope} (h : g.scope = scope) : g.under scope = g := by
  subst h
  rfl

namespace Session

/-- Whether a command changes who is asking, or who is logged in. -/
def Command.changesUser : Command → Bool
  | .callAs _ | .callAsLoggedIn | .login _ => true
  | _ => false

variable {σ : Type} {P : Context σ → Context σ → Prop} {scope : Scope} {name : String} {s s' s₁ s₁' : Session σ}

/-- Two sessions with one graph of a scope under a name, and related contexts. Who asks, and who is logged in, may differ. -/
structure Sharing (P : Context σ → Context σ → Prop) (scope : Scope) (name : String) (s s' : Session σ) : Prop where
  context : P s.context s'.context
  graph : ∃ g, s.graphs.find? name = some g ∧ s'.graphs.find? name = some g ∧ g.scope = scope

theorem graph_of_find? {g : LevelGraph} (h : s.graphs.find? name = some g) : graph name s = (.ok g, s) := by
  rw [graph, Act.bind_of_ok (Act.get_apply s), h]
  rfl

theorem grow_of_find? {α : Type} {g : LevelGraph} (h : s.graphs.find? name = some g) (r : Run (Growing σ) α) :
    grow name r s = ((r ⟨g, s.context⟩).1.mapError .error,
      { s with context := (r ⟨g, s.context⟩).2.context, graphs := s.graphs.set name (r ⟨g, s.context⟩).2.graph }) :=
  Act.bind_of_ok (graph_of_find? h)

theorem graph_sharing : Act.Mirrors (Sharing P scope name) Eq (graph name : Doing σ LevelGraph) (graph name) := by
  intro s s' hs
  obtain ⟨g, hg, hg', -⟩ := hs.graph
  rw [graph_of_find? hg, graph_of_find? hg']
  exact ⟨.ok rfl, hs⟩

/-- The graph grows alike in both sessions. -/
theorem grow_sharing {α : Type} {r : Run (Growing σ) α} (h : Act.Mirrors (Growing.Abreast P scope scope) Eq r r) :
    Act.Mirrors (Sharing P scope name) Eq (grow name r) (grow name r) := by
  intro s s' hs
  obtain ⟨g, hg, hg', hscope⟩ := hs.graph
  obtain ⟨hx, hst⟩ := h ⟨g, s.context⟩ ⟨g, s'.context⟩ ⟨(LevelGraph.under_self hscope).symm, hscope, hs.context⟩
  rw [grow_of_find? hg, grow_of_find? hg']
  refine ⟨hx.mapError _, hst.context, (r ⟨g, s.context⟩).2.graph, ?_, ?_, hst.scope⟩
  · exact (Table.find?_set ..).trans (if_pos rfl)
  · have hsame := hst.graph.trans (LevelGraph.under_self hst.scope)
    exact (Table.find?_set ..).trans ((if_pos rfl).trans (congrArg some hsame))

variable [Sources σ]

/-- A change of the user changes neither the context nor the graphs. -/
theorem run_of_changesUser {cmd : Command} (h : cmd.changesUser = true) (s : Session σ) :
    (cmd.run s).2.context = s.context ∧ (cmd.run s).2.graphs = s.graphs := by
  cases cmd with
  | callAs | callAsLoggedIn | login => exact ⟨rfl, rfl⟩
  | _ => cases h

/-- What a build does to a session. -/
theorem run_build (name : String) (root : Token) (search : Search) (onlyOne : Bool) (s : Session σ) :
    (Command.build name root search onlyOne).run s =
      match LevelGraph.build s.scope search root onlyOne s.context with
      | (.ok g, context) => (.ok (.summary g), { s with context, graphs := s.graphs.set name g })
      | (.error e, context) => (.error (.error e), { s with context }) := by
  have hrun : (Command.build name root search onlyOne).run s =
      (do
        let g ← inContext (LevelGraph.build s.scope search root onlyOne)
        keepGraph name g
        pure (.summary g) : Doing σ Shown) s := rfl
  rw [hrun]
  rcases hr : LevelGraph.build s.scope search root onlyOne s.context with ⟨e | g, context⟩
  · have hfailed : inContext (LevelGraph.build s.scope search root onlyOne) s = (.error (.error e), { s with context }) := by
      rw [inContext, Act.on, Act.mapError, hr]
      rfl
    rw [Act.bind_of_error hfailed]
  · have hbuilt : inContext (LevelGraph.build s.scope search root onlyOne) s = (.ok g, { s with context }) := by
      rw [inContext, Act.on, Act.mapError, hr]
      rfl
    rw [Act.bind_of_ok hbuilt]
    rfl

/-- What the calls of a graph show, or why they fail, among the commands of a script. -/
def answers (name : String) (s : Session σ) (script : List Command) : List (Except Failure Shown) :=
  ((script.zip (results s script)).filter (·.1.grown? = some name)).map Prod.snd

theorem answers_of_call {cmd : Command} (h : cmd.grown? = some name) (s : Session σ) (script : List Command) :
    answers name s (cmd :: script) = (cmd.run s).1 :: answers name (cmd.run s).2 script := by
  rw [answers, results, List.zip_cons_cons, List.filter_cons_of_pos (by simp [h])]
  rfl

theorem answers_of_not_call {cmd : Command} (h : cmd.grown? ≠ some name) (s : Session σ) (script : List Command) :
    answers name s (cmd :: script) = answers name (cmd.run s).2 script := by
  rw [answers, results, List.zip_cons_cons, List.filter_cons_of_neg (by simp [h])]
  rfl

section Asking

variable (hparents : ∀ b t, Act.Mirrors P Eq (Context.parents scope b t : Run (Context σ) Answer) (Context.parents scope b t))

include hparents

/-- A call of the graph shows the same in both sessions. -/
theorem Command.sharing {cmd : Command} (h : cmd.grown? = some name) :
    Act.Mirrors (Sharing P scope name) Eq (cmd.run : Doing σ Shown) cmd.run := by
  cases cmd with
  | expandAll =>
    cases h
    refine (grow_sharing (Growing.expandAll_abreast hparents)).bind fun _ _ _ => graph_sharing.bind fun g _ hg => ?_
    subst hg
    exact Act.Mirrors.pure rfl
  | findLevel _ n =>
    cases h
    refine (grow_sharing (Growing.level?_abreast hparents n)).bind fun ids _ hids => graph_sharing.bind fun g _ hg => ?_
    subst hids hg
    exact Act.Mirrors.pure rfl
  | _ => cases h

/-- What is built for one caller in related contexts is one graph. -/
theorem sharing_of_build {root : Token} {search : Search} {onlyOne : Bool} {shown : Shown}
    (hemit : ∀ e, Act.Mirrors P Eq (Context.emit e : Run (Context σ) Unit) (Context.emit e)) (hs : P s.context s'.context)
    (hscope : s.scope = scope) (hscope' : s'.scope = scope)
    (h : (Command.build name root search onlyOne).run s = (.ok shown, s₁)) :
    ∃ s₁', (Command.build name root search onlyOne).run s' = (.ok shown, s₁') ∧ Sharing P scope name s₁ s₁' := by
  have hbuild := LevelGraph.build_abreast hparents hemit search root onlyOne s.context s'.context hs
  rw [run_build, hscope] at h
  rcases hr : LevelGraph.build scope search root onlyOne s.context with ⟨x, c⟩
  rcases hr' : LevelGraph.build scope search root onlyOne s'.context with ⟨y, c'⟩
  rw [hr, hr'] at hbuild
  rw [hr] at h
  obtain ⟨hx, hc⟩ := hbuild
  cases hx with
  | error e => cases h
  | @ok g g' hg =>
    obtain ⟨hsame, hg⟩ := hg
    rw [LevelGraph.under_self hg] at hsame
    cases hsame
    cases h
    refine ⟨{ s' with context := c', graphs := s'.graphs.set name g }, ?_, hc, g, ?_, ?_, hg⟩
    · rw [run_build, hscope', hr']
    · exact (Table.find?_set ..).trans (if_pos rfl)
    · exact (Table.find?_set ..).trans (if_pos rfl)

/-! ## Scripts -/

/-- What a script shows is, as far as the graph is concerned, what its calls of the graph show when nobody logs in or out between
them. -/
theorem Sharing.replay {script : List Command} (hs : Sharing P scope name s s')
    (hscript : ∀ cmd ∈ script, cmd.changesUser = true ∨ cmd.grown? = some name) :
    answers name s script = results s' (script.filter (·.grown? = some name)) ∧
      Sharing P scope name (replay s script) (replay s' (script.filter (·.grown? = some name))) := by
  induction script generalizing s s' with
  | nil => exact ⟨rfl, hs⟩
  | cons cmd script ih =>
    have hrest := fun cmd hc => hscript cmd (List.mem_cons_of_mem _ hc)
    by_cases hcall : cmd.grown? = some name
    · obtain ⟨hshown, hafter⟩ := Command.sharing hparents hcall s s' hs
      obtain ⟨hanswers, hreplay⟩ := ih hafter hrest
      rw [answers_of_call hcall, List.filter_cons_of_pos (by simp [hcall]), results, hanswers, hshown.eq]
      exact ⟨rfl, hreplay⟩
    · obtain ⟨hcontext, hgraphs⟩ := run_of_changesUser ((hscript cmd List.mem_cons_self).resolve_right hcall) s
      have hafter : Sharing P scope name (cmd.run s).2 s' := ⟨hcontext ▸ hs.context, hgraphs ▸ hs.graph⟩
      rw [answers_of_not_call hcall, List.filter_cons_of_neg (by simp [hcall])]
      exact ih hafter hrest

end Asking

/-- A graph keeps the scope that its caller had when it was built, whatever commands log users in and out, or change who is asking,
between the calls of the graph. Every question that the build and the calls ask of the cache is asked for this scope: the context is what
such questions leave, and all that is done to the cache is to look up and to add for the scope, so that nothing is done to it without a
user. No other user has got an answer by them. They do not look at the answers of others: with other such answers in the cache, but as
many, the same graph is built, its calls show the same, and all that is left is the same but for these answers. And without the changes
of the user the calls show the same and leave the same graph and the same context. -/
theorem built_graph_keeps_scope (s s₁ : Session σ) (name : String) (root : Token) (search : Search) (onlyOne : Bool) (shown : Shown)
    (hbuild : (Command.build name root search onlyOne).run s = (.ok shown, s₁)) (script : List Command)
    (hscript : ∀ cmd ∈ script, cmd.changesUser = true ∨ cmd.grown? = some name) :
    let s₂ := replay s₁ script
    (∃ g, s₂.graphs.find? name = some g ∧ g.scope = s.scope) ∧
    (∃ looks, Context.Looked s.context looks s₂.context ∧ ∀ l ∈ looks, l.question.scope = s.scope) ∧
    (∃ calls, s₂.context.cache = s.context.cache.after calls ∧ ∀ call ∈ calls, call.isFor s.scope = true) ∧
    (s.scope = none → s₂.context.cache = s.context.cache) ∧
    (∀ b k e, s.scope ≠ some k.user → (s₂.context.cache.shelf b).entries.find? k = some e →
      (s.context.cache.shelf b).entries.find? k = some e) ∧
    (∀ cache, s.context.cache.AlikeFor s.scope cache → ∃ s₁',
      (Command.build name root search onlyOne).run { s with context := { s.context with cache } } = (.ok shown, s₁') ∧
      answers name s₁' script = answers name s₁ script ∧
      (replay s₁' script).graphs.find? name = s₂.graphs.find? name ∧
      s₂.context.AlikeFor s.scope (replay s₁' script).context) ∧
    let calls := script.filter (·.grown? = some name)
    answers name s₁ script = results s₁ calls ∧ s₂.context = (replay s₁ calls).context ∧
      s₂.graphs.find? name = (replay s₁ calls).graphs.find? name := by
  intro s₂
  have hlooks := fun b t => (Context.keeps_lookedFor s.context s.scope b t).mirrors
  have hlogs : ∀ e, Act.Keeps (Context.LookedFor s.scope s.context) (Context.emit e) := fun _ _ hc => Context.lookedFor_log _ hc
  have hstart : Context.LookedFor s.scope s.context s.context := ⟨[], .start, nofun⟩
  obtain ⟨s₁', hbuild', hsharing⟩ := sharing_of_build hlooks (fun e => (hlogs e).mirrors) ⟨rfl, hstart⟩ rfl rfl hbuild
  cases hbuild.symm.trans hbuild'
  obtain ⟨hanswers, ⟨hcontext, hlooked⟩, g, hg, hg', hscope⟩ := hsharing.replay hlooks hscript
  obtain ⟨looks, hlooked, hlooks⟩ := hlooked
  obtain ⟨calls, hcache, hcalls⟩ := hlooked.exists_calls hlooks
  refine ⟨⟨g, hg, hscope⟩, ⟨looks, hlooked, hlooks⟩, ⟨calls, hcache, hcalls⟩, fun hnone => ?_, fun b k e hk he => ?_,
    fun cache halike => ?_, hanswers, hcontext.symm, hg.trans hg'.symm⟩
  · rw [hcache]
    exact Cache.after_of_isFor_none (hnone ▸ hcalls)
  · rw [hcache] at he
    exact Cache.find?_of_find?_after hcalls hk he
  · let s' : Session σ := { s with context := { s.context with cache } }
    have hcontexts : s.context.AlikeFor s.scope s'.context := ⟨halike, rfl, rfl⟩
    obtain ⟨s₁', hbuild', hsharing⟩ :=
      sharing_of_build (Context.parents_alike s.scope) (Context.emit_alike s.scope) hcontexts rfl rfl hbuild
    obtain ⟨hshown, hafter, g₂, hg₂, hg₂', -⟩ := hsharing.replay (Context.parents_alike s.scope) hscript
    -- the calls alone, and the whole script, from the session with the other cache
    have hself : Sharing (fun c c' => c' = c ∧ True) s.scope name s₁' s₁' := by
      obtain ⟨g, -, hg, hscope⟩ := hsharing.graph
      exact ⟨⟨rfl, trivial⟩, g, hg, hg, hscope⟩
    have hany := fun b t => Act.Keeps.mirrors (P := fun _ => True) (r := (Context.parents s.scope b t : Run (Context σ) Answer))
      fun _ _ => trivial
    obtain ⟨hshown', ⟨hsame, -⟩, g₃, hg₃, hg₃', -⟩ := hself.replay hany hscript
    refine ⟨s₁', hbuild', hshown'.trans hshown.symm, ?_, hsame ▸ hafter⟩
    rw [hg₃, ← hg₃', hg₂']
    exact hg₂.symm

/-- Ann has a graph built, then Bob logs in, for whom the cache knows that the page has no parents, and then nobody is logged in. The graph
stays that of Ann: its calls find the home page above the page, as they would if nobody had logged in or out, and Bob has no more in the
cache than before. -/
theorem built_graph_keeps_scope_logout :
    let row := Token.element "row" "news" "1"
    let page := Token.element "page" "pages" "about"
    let home := Token.element "page" "pages" "home"
    let sources := Catalog.ofTables ((Listing.empty.add row page).add page home) Hooks.empty
    let s := replay (new sources ⟨true, 10⟩ none) [.callAsLoggedIn, .login (some "Ann"), .keep .native (some "Bob") page none]
    let script : List Command := [.login (some "Bob"), .findLevel "graph" 2, .login none, .expandAll "graph"]
    ∃ shown s₁, (Command.build "graph" row .native true).run s = (.ok shown, s₁) ∧
      let s₂ := replay s₁ script
      s.scope = some "Ann" ∧ s₂.scope = none ∧
      (∃ g, s₂.graphs.find? "graph" = some g ∧ g.scope = some "Ann" ∧ g.contains home = true) ∧
      answers "graph" s₁ script = results s₁ [.findLevel "graph" 2, .expandAll "graph"] ∧
      ∀ b x e, (s₂.context.cache.shelf b).entries.find? ⟨"Bob", x⟩ = some e →
        (s.context.cache.shelf b).entries.find? ⟨"Bob", x⟩ = some e := by
  intro row page home sources s script
  have hbuilds : (((Command.build "graph" row .native true).run s).1.toOption.map fun _ => true) = some true := by decide +kernel
  obtain ⟨shown, s₁, hbuild, -⟩ := Act.exists_of_map_eq_some hbuilds
  obtain ⟨⟨g, hg, hscope⟩, -, -, -, hothers, -, hanswers, -, -⟩ :=
    built_graph_keeps_scope s s₁ "graph" row .native true shown hbuild script (by decide)
  have hann : s.scope = some "Ann" := by decide +kernel
  have hnobody : (replay ((Command.build "graph" row .native true).run s).2 script).scope = none := by decide +kernel
  have hhome : ((replay ((Command.build "graph" row .native true).run s).2 script).graphs.find? "graph").map (·.contains home) =
      some true := by decide +kernel
  rw [hbuild] at hnobody hhome
  rw [hg] at hhome
  rw [hann] at hscope hothers
  exact ⟨shown, s₁, hbuild, hann, hnobody, ⟨g, hg, hscope, Option.some.inj hhome⟩, hanswers,
    fun b x e he => hothers b _ e (by simp) he⟩

end Session
end Lineage
