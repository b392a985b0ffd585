import Lineage.Proofs.Graph.Renaming
import Lineage.Proofs.Session.Transparent

/-!
# Sessions of users under other names

A script is done twice, the second time by users under other names, no two the same. Turn by turn both sessions log the same events and
show the same, but for the scopes in what is shown. So nobody can tell from a log who the users were: a log says no more about them
than when one of them met an answer that was kept for the same user.
-/

namespace Lineage

namespace Caller

variable {ρ : Renaming} {c : Caller} {login : Scope}

/-- A caller under the other name. -/
def rename (ρ : Renaming) : Caller → Caller
  | .fixed user => .fixed (ρ.scope user)
  | .loggedIn => .loggedIn

/-- Whether a caller is given another name, if it is always the same. -/
def KnownBy (ρ : Renaming) : Caller → Prop
  | .fixed user => ρ.Knows user
  | .loggedIn => True

theorem scope_rename (ρ : Renaming) (login : Scope) (c : Caller) : (c.rename ρ).scope (ρ.scope login) = ρ.scope (c.scope login) := by
  cases c <;> rfl

theorem KnownBy.scope (h : c.KnownBy ρ) (hl : ρ.Knows login) : ρ.Knows (c.scope login) := by
  cases c with
  | fixed user => exact h
  | loggedIn => exact hl

end Caller

namespace Session

variable {σ : Type} {ρ : Renaming} {s s' : Session σ}

/-- The users that a command names. -/
def Command.users : Command → List String
  | .callAs user | .login user | .keep _ user _ _ | .lookup _ user _ => user.toList
  | .parents _ scope _ => scope.join.toList
  | _ => []

/-- A command with the users under their other names. -/
def Command.rename (ρ : Renaming) : Command → Command
  | .callAs user => .callAs (ρ.scope user)
  | .login user => .login (ρ.scope user)
  | .parents b scope t => .parents b (scope.map ρ.scope) t
  | .keep b user t a => .keep b (ρ.scope user) t a
  | .lookup b user t => .lookup b (ρ.scope user) t
  | cmd => cmd

/-- What is shown, with the users under their other names. -/
def Shown.rename (ρ : Renaming) : Shown → Shown
  | .scope user => .scope (ρ.scope user)
  | .caller user => .caller (ρ.scope user)
  | .cache c => .cache (c.rename ρ)
  | .summary g => .summary (g.rename ρ)
  | .graph g => .graph (g.rename ρ)
  | .level g n ids => .level (g.rename ρ) n ids
  | shown => shown

/-- What the commands of a script show, or why they fail, one after the other. -/
def results [Sources σ] (s : Session σ) : List Command → List (Except Failure Shown)
  | [] => []
  | cmd :: script => (cmd.run s).1 :: results (cmd.run s).2 script

/-- Two sessions that differ in the names of the users at most. -/
structure Renamed (ρ : Renaming) (s s' : Session σ) : Prop where
  context : s.context.Renamed ρ s'.context
  caller : s'.caller = s.caller.rename ρ
  knownCaller : s.caller.KnownBy ρ
  login : s'.login = ρ.scope s.login
  knownLogin : ρ.Knows s.login
  graphs : ∀ name, Option.Rel (LevelGraph.Renamed ρ) (s.graphs.find? name) (s'.graphs.find? name)
  explored : s'.explored = s.explored
  refreshers : ∀ name, Option.Rel (fun x y => y.1 = x.1.rename ρ ∧ x.1.KnownBy ρ ∧ Refresher.Renamed ρ x.2 y.2)
    (s.refreshers.find? name) (s'.refreshers.find? name)

/-- Sessions begin alike for users under other names. -/
theorem renamed_new (sources : σ) (settings : CacheSettings) {user : Scope} (h : ρ.Knows user) :
    Renamed ρ (new sources settings user) (new sources settings (ρ.scope user)) where
  context := Context.renamed_new ρ sources settings
  caller := rfl
  knownCaller := h
  login := rfl
  knownLogin := nofun
  graphs _ := Option.Rel.none
  explored := rfl
  refreshers _ := Option.Rel.none

theorem Renamed.scope (h : Renamed ρ s s') : s'.scope = ρ.scope s.scope := by
  rw [Session.scope, h.caller, h.login, Caller.scope_rename]
  rfl

theorem Renamed.knownScope (h : Renamed ρ s s') : ρ.Knows s.scope := h.knownCaller.scope h.knownLogin

/-- What is found in two tables is related after related values were put into them. -/
theorem rel_find?_set {α : Type} {R : α → α → Prop} {t t' : Table String α} {x y : α} (h : ∀ n, Option.Rel R (t.find? n) (t'.find? n))
    (hxy : R x y) (name n : String) : Option.Rel R ((t.set name x).find? n) ((t'.set name y).find? n) := by
  rw [Table.find?_set, Table.find?_set]
  split
  · exact .some hxy
  · exact h n

/-! ## The parts of a session -/

theorem inContext_mirrors {α β : Type} {A : α → β → Prop} {r : Run (Context σ) α} {q : Run (Context σ) β}
    (h : Act.Mirrors (Context.Renamed ρ) A r q) : Act.Mirrors (Renamed ρ) A (inContext r) (inContext q) :=
  (h.mapError _).on (fun _ _ hs => hs.context) fun _ _ _ _ hs hc => { hs with context := hc }

theorem graph_mirrors (name : String) :
    Act.Mirrors (Renamed ρ) (LevelGraph.Renamed ρ) (graph name : Doing σ LevelGraph) (graph name) := by
  refine Act.Mirrors.get fun s s' hs => ?_
  have hfound := hs.graphs name
  generalize s.graphs.find? name = x, s'.graphs.find? name = y at hfound
  cases hfound with
  | some hg => exact Act.Mirrors.pure hg
  | none => exact Act.Mirrors.fail _

theorem pathGraph_mirrors (name : String) : Act.Mirrors (Renamed ρ) Eq (pathGraph name : Doing σ PathGraph) (pathGraph name) := by
  refine Act.Mirrors.get fun s s' hs => ?_
  rw [hs.explored]
  cases s.explored.find? name with
  | some g => exact Act.Mirrors.pure rfl
  | none => exact Act.Mirrors.fail _

theorem refresher_mirrors (name : String) :
    Act.Mirrors (Renamed ρ) (fun x y => y.1 = x.1.rename ρ ∧ x.1.KnownBy ρ ∧ Refresher.Renamed ρ x.2 y.2)
      (refresher name : Doing σ (Caller × Refresher)) (refresher name) := by
  refine Act.Mirrors.get fun s s' hs => ?_
  have hfound := hs.refreshers name
  generalize s.refreshers.find? name = x, s'.refreshers.find? name = y at hfound
  cases hfound with
  | some hr => exact Act.Mirrors.pure hr
  | none => exact Act.Mirrors.fail _

theorem pathNode_mirrors (name : String) (t : Option Token) :
    Act.Mirrors (Renamed ρ) Eq (pathNode name t : Doing σ NodeId) (pathNode name t) := by
  refine (pathGraph_mirrors name).bind fun g _ hg => ?_
  subst hg
  cases g.find? (t.getD g.root) with
  | some i => exact Act.Mirrors.pure rfl
  | none => exact Act.Mirrors.fail _

theorem keepGraph_mirrors (name : String) {g g' : LevelGraph} (h : g.Renamed ρ g') :
    Act.Mirrors (Renamed ρ) Eq (keepGraph name g : Doing σ Unit) (keepGraph name g') :=
  Act.Mirrors.modify fun _ _ hs => { hs with graphs := rel_find?_set hs.graphs h name }

/-- A graph grows alike on both sides. -/
theorem grow_mirrors {α : Type} (name : String) {r : Run (Growing σ) α} (h : Act.Mirrors (Growing.Renamed ρ) Eq r r) :
    Act.Mirrors (Renamed ρ) Eq (grow name r) (grow name r) := by
  refine (graph_mirrors name).bind fun g g' hg s s' hs => ?_
  obtain ⟨hx, hst⟩ := h ⟨g, s.context⟩ ⟨g', s'.context⟩ ⟨hg, hs.context⟩
  exact ⟨hx.mapError _, { hs with context := hst.context, graphs := rel_find?_set hs.graphs hst.graph name }⟩

/-- A path graph is explored alike on both sides. -/
theorem explore_mirrors {α : Type} (name : String) {r : Run (Exploring σ) α} (h : Act.Mirrors (Exploring.Renamed ρ) Eq r r) :
    Act.Mirrors (Renamed ρ) Eq (explore name r) (explore name r) := by
  refine (pathGraph_mirrors name).bind fun g g' hg s s' hs => ?_
  obtain ⟨hx, hst⟩ := h ⟨g, s.context⟩ ⟨g', s'.context⟩ ⟨hg.symm, hs.context⟩
  refine ⟨hx.mapError _, { hs with context := hst.context, explored := ?_ }⟩
  show s'.explored.set name _ = s.explored.set name _
  rw [hs.explored, hst.graph]

/-- A refresher works alike on both sides, each for its own caller. -/
theorem refresh_mirrors {α : Type} (name : String) {r : Scope → Run (Refreshing σ) α}
    (h : ∀ scope, ρ.Knows scope → Act.Mirrors (Refreshing.Renamed ρ) Eq (r scope) (r (ρ.scope scope))) :
    Act.Mirrors (Renamed ρ) Eq (refresh name r) (refresh name r) := by
  refine (refresher_mirrors name).bind fun x y hxy s s' hs => ?_
  obtain ⟨caller, refresher⟩ := x
  obtain ⟨caller', refresher'⟩ := y
  obtain ⟨rfl, hknown, hr⟩ := hxy
  obtain ⟨hx, hst⟩ := h (caller.scope s.login) (hknown.scope hs.knownLogin) ⟨refresher, s.context⟩ ⟨refresher', s'.context⟩
    ⟨hr, hs.context⟩
  rw [← Caller.scope_rename, ← hs.login] at hx hst
  refine ⟨hx.mapError _, { hs with context := hst.context, refreshers := rel_find?_set hs.refreshers ?_ name }⟩
  exact ⟨rfl, hknown, hst.refresher⟩

/-! ## Commands -/

theorem Reading.shown_rename (ρ : Renaming) (g : LevelGraph) (what : Reading) : what.shown (g.rename ρ) = (what.shown g).rename ρ := by
  cases what <;> rfl

theorem Renamed.debugContext (h : Renamed ρ s s') : s'.debugContext = s.debugContext := by
  have hcache : s'.context.cache.debug = s.context.cache.debug := by
    rw [h.context.eq]
    exact Cache.debug_rename h.context.known
  have hsome : s'.scope.isSome = s.scope.isSome := by rw [h.scope, Renaming.scope, Option.isSome_map]
  rw [Session.debugContext, hcache, hsome, Session.debugContext]

variable [Sources σ]

/-- A command shows the same on both sides but for the scopes, or fails on both for the same reason, and both log the same. -/
theorem Command.mirrors {cmd : Command} (h : ∀ user ∈ cmd.users, user ∈ ρ.users) :
    Act.Mirrors (Renamed ρ) (fun x y => y = x.rename ρ) (cmd.run : Doing σ Shown) (cmd.rename ρ).run := by
  cases cmd with
  | callAs user =>
    have hu : ρ.Knows user := Renaming.knows_of_toList h
    refine Act.Mirrors.bind (A := Eq) (Act.Mirrors.modify fun s s' hs => ?_) fun _ _ _ => ?_
    · exact { hs with caller := rfl, knownCaller := hu }
    · exact Act.Mirrors.get fun s s' hs => Act.Mirrors.pure (congrArg Shown.scope hs.scope)
  | callAsLoggedIn =>
    refine Act.Mirrors.bind (A := Eq) (Act.Mirrors.modify fun s s' hs => ?_) fun _ _ _ => ?_
    · exact { hs with caller := rfl, knownCaller := trivial }
    · exact Act.Mirrors.get fun s s' hs => Act.Mirrors.pure (congrArg Shown.scope hs.scope)
  | login user =>
    have hu : ρ.Knows user := Renaming.knows_of_toList h
    refine Act.Mirrors.bind (A := Eq) (Act.Mirrors.modify fun s s' hs => ?_) fun _ _ _ => ?_
    · exact { hs with login := rfl, knownLogin := hu }
    · exact Act.Mirrors.get fun s s' hs => Act.Mirrors.pure (congrArg Shown.scope hs.scope)
  | whoAmI => exact Act.Mirrors.get fun s s' hs => Act.Mirrors.pure (congrArg Shown.caller hs.scope)
  | ask category t =>
    exact (inContext_mirrors (Context.ask_mirrors category t)).bind fun a _ ha => Act.Mirrors.pure (congrArg Shown.answer ha.symm)
  | askMerged t =>
    exact (inContext_mirrors (Context.askMerged_mirrors t)).bind fun a _ ha => Act.Mirrors.pure (congrArg Shown.answer ha.symm)
  | parents b scope t =>
    refine Act.Mirrors.get fun s s' hs => ?_
    have hscope : (scope.map ρ.scope).getD s'.scope = ρ.scope (scope.getD s.scope) := by
      cases scope with
      | none => exact hs.scope
      | some scope => rfl
    have hknown : ρ.Knows (scope.getD s.scope) := by
      cases scope with
      | none => exact hs.knownScope
      | some scope => exact Renaming.knows_of_toList h
    dsimp only
    rw [hscope]
    exact (inContext_mirrors (Context.parents_mirrors hknown b t)).bind fun a _ ha => Act.Mirrors.pure (congrArg Shown.answer ha.symm)
  | keep b user t a =>
    have hu : ρ.Knows user := Renaming.knows_of_toList h
    refine (inContext_mirrors (Context.keep_mirrors hu b t a)).bind fun _ _ _ => Act.Mirrors.get fun s s' hs => Act.Mirrors.pure ?_
    rw [hs.context.eq, show (s.context.rename ρ).cache = s.context.cache.rename ρ from rfl, Cache.size_rename hs.context.known,
      Cache.size_rename hs.context.known]
    rfl
  | lookup b user t =>
    have hu : ρ.Knows user := Renaming.knows_of_toList h
    exact (inContext_mirrors (Context.lookup_mirrors hu b t)).bind fun e _ he => Act.Mirrors.pure (congrArg Shown.entry he.symm)
  | flush => exact (inContext_mirrors Context.flush_mirrors).bind fun _ _ _ => Act.Mirrors.pure rfl
  | stats =>
    refine Act.Mirrors.get fun s s' hs => Act.Mirrors.pure ?_
    rw [hs.context.eq]
    rfl
  | build name root search onlyOne =>
    refine Act.Mirrors.get fun s s' hs => ?_
    rw [hs.scope]
    refine (inContext_mirrors (LevelGraph.build_mirrors hs.knownScope search root onlyOne)).bind fun g g' hg => ?_
    exact (keepGraph_mirrors name hg).bind fun _ _ _ => Act.Mirrors.pure (congrArg Shown.summary hg.eq)
  | expandAll name =>
    refine (grow_mirrors name Growing.expandAll_mirrors).bind fun _ _ _ => (graph_mirrors name).bind fun g g' hg => ?_
    exact Act.Mirrors.pure (congrArg Shown.summary hg.eq)
  | findLevel name n =>
    refine (grow_mirrors name (Growing.level?_mirrors n)).bind fun ids _ hids => (graph_mirrors name).bind fun g g' hg => ?_
    subst hids
    exact Act.Mirrors.pure (congrArg (Shown.level · n ids) hg.eq)
  | read name what =>
    refine (graph_mirrors name).bind fun g g' hg => Act.Mirrors.pure ?_
    rw [hg.eq, Reading.shown_rename]
  | nodeOf name other t =>
    refine (graph_mirrors other).bind fun g g' hg => ?_
    rw [hg.eq, show (g.rename ρ).find? t = g.find? t from rfl]
    cases g.find? t with
    | none => exact Act.Mirrors.fail _
    | some i =>
      refine (graph_mirrors name).bind fun g g' hg => ?_
      rw [hg.eq, show (g.rename ρ).node i = g.node i from rfl]
      refine ((Act.Mirrors.ofExcept (Act.Alike.refl _)).mapError _).bind fun n _ hn => ?_
      subst hn
      exact Act.Mirrors.pure rfl
  | diff before after take =>
    refine (graph_mirrors before).bind fun g g' hg => (graph_mirrors after).bind fun h h' hh => ?_
    refine (inContext_mirrors (Difference.find_mirrors hg hh)).bind fun ts _ hts => ?_
    subst hts
    exact Act.Mirrors.pure rfl
  | start name root =>
    refine Act.Mirrors.bind (A := Eq) (Act.Mirrors.modify fun s s' hs => { hs with explored := ?_ }) fun _ _ _ => Act.Mirrors.pure rfl
    show s'.explored.set name _ = s.explored.set name _
    rw [hs.explored]
  | linked name other t =>
    refine (pathNode_mirrors other t).bind fun i _ hi => ?_
    subst hi
    refine (explore_mirrors name (Exploring.parents_mirrors i)).bind fun ids _ hids => (pathGraph_mirrors name).bind fun g _ hg => ?_
    subst hids hg
    exact Act.Mirrors.pure rfl
  | allPaths name other t =>
    refine (pathNode_mirrors other t).bind fun i _ hi => ?_
    subst hi
    refine (explore_mirrors name (Exploring.allPaths_mirrors _ i)).bind fun paths _ hpaths => ?_
    refine (pathGraph_mirrors name).bind fun g _ hg => ?_
    subst hpaths hg
    exact Act.Mirrors.pure rfl
  | pathToken name other t =>
    refine (pathNode_mirrors other t).bind fun i _ hi => (pathGraph_mirrors name).bind fun g _ hg => ?_
    subst hi hg
    refine ((Act.Mirrors.ofExcept (Act.Alike.refl _)).mapError _).bind fun t _ ht => ?_
    subst ht
    exact Act.Mirrors.pure rfl
  | isExpanded name other t =>
    refine (pathNode_mirrors other t).bind fun i _ hi => (pathGraph_mirrors name).bind fun g _ hg => ?_
    subst hi hg
    exact Act.Mirrors.pure rfl
  | findPathNode name t | debugPaths name =>
    refine (pathGraph_mirrors name).bind fun g _ hg => ?_
    subst hg
    exact Act.Mirrors.pure rfl
  | prepare name parent console requestId =>
    refine Act.Mirrors.get fun s s' hs => ?_
    rw [hs.scope]
    refine (inContext_mirrors (Refresher.new_mirrors hs.knownScope requestId console parent)).bind fun r r' hr => ?_
    refine Act.Mirrors.bind (A := Eq) (Act.Mirrors.modify fun st st' hst => ?_) fun _ _ _ => Act.Mirrors.pure ?_
    · refine { hst with refreshers := rel_find?_set hst.refreshers ?_ name }
      exact ⟨hst.caller, hst.knownCaller, hr⟩
    · rw [hr.eq]
      rfl
  | post name child =>
    refine (refresh_mirrors name fun scope hscope => Refreshing.post_mirrors hscope child).bind fun n _ hn => ?_
    refine (refresher_mirrors name).bind fun x y hxy => Act.Mirrors.pure ?_
    rw [hn, hxy.2.2.eq]
    rfl
  | readBefore name | readConsole name | debugRefresher name =>
    refine (refresher_mirrors name).bind fun x y hxy => Act.Mirrors.pure ?_
    rw [hxy.2.2.eq]
    rfl
  | debugContext => exact Act.Mirrors.get fun s s' hs => Act.Mirrors.pure (congrArg Shown.text hs.debugContext)
  | debugCache =>
    refine Act.Mirrors.get fun s s' hs => Act.Mirrors.pure (congrArg Shown.text ?_)
    rw [hs.context.eq]
    exact Cache.debug_rename hs.context.known
  | debugSources | debugServices => exact Act.Mirrors.pure rfl

/-! ## Scripts -/

/-- Scripts that are the same but for the names of the users show the same, turn by turn, and leave sessions that are the same but for
these names. -/
theorem Renamed.replay (h : Renamed ρ s s') {script : List Command}
    (hs : ∀ cmd ∈ script, ∀ user ∈ cmd.users, user ∈ ρ.users) :
    Renamed ρ (replay s script) (replay s' (script.map (Command.rename ρ))) ∧
      results s' (script.map (Command.rename ρ)) = (results s script).map (·.map (Shown.rename ρ)) := by
  induction script generalizing s s' with
  | nil => exact ⟨h, rfl⟩
  | cons cmd script ih =>
    obtain ⟨hx, h'⟩ := Command.mirrors (hs cmd List.mem_cons_self) s s' h
    obtain ⟨hreplay, hresults⟩ := ih h' fun cmd' h' => hs cmd' (List.mem_cons_of_mem cmd h')
    exact ⟨hreplay, congrArg₂ List.cons hx.map_eq hresults⟩

/-- The names of the users never show in the log. Whatever the sources, if the users of a script are given other names, no two the
same, exactly the same events are logged, the same questions are asked, and every command shows the same, or fails for the same reason,
as under the old names, but for the scopes in what is shown. Only the users of the answers in the cache, of the callers and of the
graphs are others. -/
theorem same_under_other_names (ρ : Renaming) (sources : σ) (settings : CacheSettings) {user : Scope} (hu : ρ.Knows user)
    {script : List Command} (hs : ∀ cmd ∈ script, ∀ user ∈ cmd.users, user ∈ ρ.users) :
    let s := replay (new sources settings user) script
    let s' := replay (new sources settings (ρ.scope user)) (script.map (Command.rename ρ))
    s'.context.log = s.context.log ∧
      results (new sources settings (ρ.scope user)) (script.map (Command.rename ρ)) =
        (results (new sources settings user) script).map (·.map (Shown.rename ρ)) ∧
      s'.context.sources = s.context.sources ∧ s'.context.cache = s.context.cache.rename ρ ∧ Renamed ρ s s' := by
  obtain ⟨hreplay, hresults⟩ := (renamed_new sources settings hu).replay hs
  refine ⟨?_, hresults, ?_, ?_, hreplay⟩
  all_goals
    rw [hreplay.context.eq]
    rfl

/-- Two users change names. Each of them asks for the same parents, one of them finds the answer that was kept before, a shelf overflows,
and the log is the same. -/
theorem same_under_other_names_exchanged :
    let a := Token.element "page" "site" "1"
    let b := Token.element "page" "site" "2"
    let sources := Catalog.ofTables ((Listing.empty.add a b).add b a) Hooks.empty
    let script : List Command := [.parents .native none a, .parents .native none a, .login (some "bob"), .callAsLoggedIn,
      .parents .native none a, .build "pages" b .both true, .findLevel "pages" 2, .parents .native (some (some "ann")) b]
    let ρ := Renaming.exchange "ann" "bob"
    let settings : CacheSettings := { maxSize := 2 }
    (replay (new sources settings (ρ.scope (some "ann"))) (script.map (Command.rename ρ))).context.log =
        (replay (new sources settings (some "ann")) script).context.log ∧
      (replay (new sources settings (ρ.scope (some "ann"))) (script.map (Command.rename ρ))).context.cache.native.entries.keys ≠
        (replay (new sources settings (some "ann")) script).context.cache.native.entries.keys ∧
      (replay (new sources settings (some "ann")) script).context.cache.native.hits = 1 ∧
      (replay (new sources settings (some "ann")) script).context.cache.native.resets = 1 := by
  intro a b sources script ρ settings
  have hann : ρ.Knows (some "ann") := fun _ _ => trivial
  refine ⟨(same_under_other_names ρ sources settings hann fun _ _ _ _ => trivial).1, ?_⟩
  decide +kernel

end Session
end Lineage
