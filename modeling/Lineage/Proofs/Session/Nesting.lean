import Lineage.Proofs.Log.Nesting
import Lineage.Proofs.Session.Transparent
import Lineage.Source.Catalog

/-!
# The logs of sessions are well nested

Every command of a session logs frames and plain events, whether it fails or not, so the log of a script is well nested and nothing is
left open in it. Only a post speaks in the name of a refresher, and it gives the request id of the refresher that was asked for.
-/

namespace Lineage.Session

open Log

variable {σ : Type} {T : List Event → Prop}

/-- What a session has logged. -/
def events (s : Session σ) : List Event := s.context.events

/-! ## What commands are made of -/

theorem inContext_writes {α : Type} {r : Run (Context σ) α} (h : Act.Writes Context.events T r) : Act.Writes events T (inContext r) :=
  h.mapError.on (fun _ => rfl) fun _ _ => rfl

/-- Looking for a refresher changes nothing. -/
theorem refresher_apply (name : String) (s : Session σ) : (refresher name : Doing σ (Caller × Refresher)) s =
    ((s.refreshers.find? name).elim (.error (.missing (.refresher name))) .ok, s) := by
  unfold refresher
  rw [Act.bind_of_ok (Act.get_apply s)]
  cases s.refreshers.find? name <;> rfl

section Joins

variable [Act.Joins T]

theorem graph_writes (n : String) : Act.Writes events T (graph n : Doing σ LevelGraph) := by
  refine Act.Writes.get fun s => ?_
  split
  · exact Act.Writes.pure _
  · exact Act.Writes.fail _

theorem pathGraph_writes (n : String) : Act.Writes events T (pathGraph n : Doing σ PathGraph) := by
  refine Act.Writes.get fun s => ?_
  split
  · exact Act.Writes.pure _
  · exact Act.Writes.fail _

theorem refresher_writes (n : String) : Act.Writes events T (refresher n : Doing σ (Caller × Refresher)) :=
  Act.Writes.nothing fun s => by rw [refresher_apply]

theorem pathNode_writes (n : String) (t : Option Token) : Act.Writes events T (pathNode n t : Doing σ NodeId) := by
  refine (pathGraph_writes n).bind fun g => ?_
  split
  · exact Act.Writes.pure _
  · exact Act.Writes.fail _

theorem grow_writes {α : Type} (n : String) {r : Run (Growing σ) α} (h : Act.Writes Growing.events T r) :
    Act.Writes events T (grow n r) :=
  (graph_writes n).bind fun g s => h ⟨g, s.context⟩

theorem explore_writes {α : Type} (n : String) {r : Run (Exploring σ) α} (h : Act.Writes Exploring.events T r) :
    Act.Writes events T (explore n r) :=
  (pathGraph_writes n).bind fun g s => h ⟨g, s.context⟩

end Joins

/-! ## Commands -/

variable [Sources σ]

/-- No command but a post speaks in the name of a refresher. -/
theorem Command.aside {cmd : Command} (h : ∀ name child, cmd ≠ .post name child) :
    Act.Writes events (Aside σ) (cmd.run : Doing σ Shown) := by
  have hcontext {α : Type} {r : Run (Context σ) α} (hr : Act.Writes Context.events Plain r) :
      Act.Writes events (Aside σ) (inContext r) := inContext_writes (writes_aside hr)
  have hgrow {α : Type} (n : String) {r : Run (Growing σ) α} (hr : Act.Writes Growing.events Plain r) :
      Act.Writes events (Aside σ) (grow n r) := grow_writes n (writes_aside hr)
  cases cmd with
  | post name child => exact absurd rfl (h name child)
  | callAs | callAsLoggedIn | login =>
    exact Act.Writes.bind (Act.Writes.nothing fun _ => rfl) fun _ => Act.Writes.get fun _ => Act.Writes.pure _
  | whoAmI | stats | debugContext | debugCache => exact Act.Writes.get fun _ => Act.Writes.pure _
  | ask category t => exact (hcontext (Context.ask_plainly category t)).bind fun _ => Act.Writes.pure _
  | askMerged t => exact (hcontext (Context.askMerged_plainly t)).bind fun _ => Act.Writes.pure _
  | parents b scope t =>
    exact Act.Writes.get fun _ => (hcontext (Context.parents_plainly _ b t)).bind fun _ => Act.Writes.pure _
  | keep b user t a =>
    exact (hcontext (Context.keep_plainly b user t a)).bind fun _ => Act.Writes.get fun _ => Act.Writes.pure _
  | lookup b user t => exact (hcontext (Context.lookup_plainly b user t)).bind fun _ => Act.Writes.pure _
  | flush => exact (hcontext Context.flush_plainly).bind fun _ => Act.Writes.pure _
  | build name root search onlyOne =>
    exact Act.Writes.get fun _ => (inContext_writes (LevelGraph.build_aside _ search root onlyOne)).bind fun _ =>
      Act.Writes.bind (Act.Writes.nothing fun _ => rfl) fun _ => Act.Writes.pure _
  | expandAll n =>
    exact (hgrow n Growing.expandAll_plainly).bind fun _ => (graph_writes n).bind fun _ => Act.Writes.pure _
  | findLevel n k =>
    exact (hgrow n (Growing.level?_plainly k)).bind fun _ => (graph_writes n).bind fun _ => Act.Writes.pure _
  | read n what => exact (graph_writes n).bind fun _ => Act.Writes.pure _
  | nodeOf n other t =>
    refine (graph_writes other).bind fun g => ?_
    split
    · exact Act.Writes.fail _
    · exact (graph_writes n).bind fun _ => (Act.Writes.ofExcept _).mapError.bind fun _ => Act.Writes.pure _
  | diff before after take =>
    exact (graph_writes before).bind fun _ => (graph_writes after).bind fun _ =>
      (inContext_writes (Difference.find_aside _ _)).bind fun _ => Act.Writes.pure _
  | start n root => exact Act.Writes.bind (Act.Writes.nothing fun _ => rfl) fun _ => Act.Writes.pure _
  | linked n other t =>
    exact (pathNode_writes other t).bind fun i => (explore_writes n (writes_aside (Exploring.parents_plainly i))).bind fun _ =>
      (pathGraph_writes n).bind fun _ => Act.Writes.pure _
  | allPaths n other t =>
    exact (pathNode_writes other t).bind fun i => (explore_writes n (Exploring.allPaths_aside _ i)).bind fun _ =>
      (pathGraph_writes n).bind fun _ => Act.Writes.pure _
  | pathToken n other t =>
    exact (pathNode_writes other t).bind fun i => (pathGraph_writes n).bind fun _ =>
      (Act.Writes.ofExcept _).mapError.bind fun _ => Act.Writes.pure _
  | isExpanded n other t =>
    exact (pathNode_writes other t).bind fun i => (pathGraph_writes n).bind fun _ => Act.Writes.pure _
  | findPathNode n t | debugPaths n => exact (pathGraph_writes n).bind fun _ => Act.Writes.pure _
  | prepare n parent console requestId =>
    exact Act.Writes.get fun s => (inContext_writes (Refresher.new_aside _ requestId console parent)).bind fun r =>
      Act.Writes.bind (Act.Writes.nothing fun _ => rfl) fun _ => Act.Writes.pure _
  | readBefore n | readConsole n | debugRefresher n => exact (refresher_writes n).bind fun _ => Act.Writes.pure _
  | debugSources | debugServices => exact Act.Writes.pure _

/-- The event was logged by a command that posts, and carries the request id of the refresher that was asked to. -/
def Command.Posts (cmd : Command) (s : Session σ) (e : Event) : Prop :=
  ∃ name child caller r, cmd = .post name child ∧ s.refreshers.find? name = some (caller, r) ∧
    Refresher.requestField r.requestId ∈ e.fields

/-- A post in a session logs what the refresher logs, if there is one. -/
theorem post_logs (name : String) (child : Token) (s : Session σ) :
    ∃ es, ((Command.post name child).run s).2.events = s.events ++ es ∧ Nested σ none es ∧
      ∀ e ∈ es, e.op = some Refresher.op → (Command.post name child).Posts s e := by
  have hshown : ((Command.post name child).run s).2.events =
      (refresh name (fun scope => Refreshing.post scope child) s).2.events :=
    Act.out_bind (fun n s' => (Act.out_bind (fun _ _ => rfl) s').trans (by rw [refresher_apply])) s
  rw [hshown]
  unfold refresh
  have hrefresher := refresher_apply name s
  cases hr : s.refreshers.find? name with
  | none =>
    rw [hr] at hrefresher
    rw [Act.bind_of_error hrefresher]
    exact ⟨[], (List.append_nil _).symm, .nil, List.forall_mem_nil _⟩
  | some x =>
    obtain ⟨caller, r⟩ := x
    rw [hr] at hrefresher
    rw [Act.bind_of_ok hrefresher]
    obtain ⟨es, hout, hnested, hsigned⟩ := Refreshing.post_nested (caller.scope s.login) child ⟨r, s.context⟩ none
    exact ⟨es, hout, hnested, fun e he hop => ⟨name, child, caller, r, rfl, hr, hsigned e he hop⟩⟩

/-- What a command logs is well nested, and what it says of a post is said by the refresher of that post. -/
theorem Command.logs (cmd : Command) (s : Session σ) :
    ∃ es, (cmd.run s).2.events = s.events ++ es ∧ Nested σ none es ∧ ∀ e ∈ es, e.op = some Refresher.op → cmd.Posts s e := by
  by_cases h : ∃ name child, cmd = .post name child
  · obtain ⟨name, child, rfl⟩ := h
    exact post_logs name child s
  · obtain ⟨es, hout, haside⟩ := Command.aside (fun name child hcmd => h ⟨name, child, hcmd⟩) s
    exact ⟨es, hout, haside.nested none, fun e he hop => absurd hop (haside.unposted e he)⟩

/-! ## Scripts -/

/-- What a script logs is well nested, and what it says of posts is said by the refreshers of its posts. -/
theorem replay_logs (s : Session σ) (script : List Command) :
    ∃ es, (replay s script).events = s.events ++ es ∧ Nested σ none es ∧ ∀ e ∈ es, e.op = some Refresher.op →
      ∃ before cmd after, script = before ++ cmd :: after ∧ cmd.Posts (replay s before) e := by
  induction script generalizing s with
  | nil => exact ⟨[], (List.append_nil _).symm, .nil, List.forall_mem_nil _⟩
  | cons cmd script ih =>
    obtain ⟨es, hout, hnested, hposts⟩ := cmd.logs s
    obtain ⟨fs, hout', hnested', hposts'⟩ := ih (cmd.run s).2
    refine ⟨es ++ fs, ?_, hnested.append hnested', List.forall_mem_append.2 ⟨fun e he hop => ?_, fun e he hop => ?_⟩⟩
    · rw [← List.append_assoc, ← hout]
      exact hout'
    · exact ⟨[], cmd, script, rfl, hposts e he hop⟩
    · obtain ⟨before, cmd', after, rfl, hcmd⟩ := hposts' e he hop
      exact ⟨cmd :: before, cmd', after, rfl, hcmd⟩

/-- Operation logs are balanced. In whatever state and over whatever sources an operation is called, it logs its start, then what is
logged inside, and then the end that its result calls for. So whatever script is done in whatever session, its log is well nested and
leaves nothing open, and every event of a post carries the request id of the refresher that was to post. -/
theorem log_balanced :
    Framing σ ∧ ∀ (s : Session σ) (script : List Command), ∃ es, (replay s script).events = s.events ++ es ∧
      Nested σ none es ∧ Balanced es ∧ ∀ e ∈ es, e.op = some Refresher.op →
        ∃ before cmd after, script = before ++ cmd :: after ∧ cmd.Posts (replay s before) e := by
  refine ⟨framing, fun s script => ?_⟩
  obtain ⟨es, hout, hnested, hposts⟩ := replay_logs s script
  exact ⟨es, hout, hnested, hnested.balanced, hposts⟩

/-- Two posts of a refresher: the first builds the graph of the child and looks for the difference, the second is refused. -/
example :
    let parent := Token.element "page" "site" "1"
    let child := Token.element "page" "site" "2"
    let sources := Catalog.ofTables (Listing.empty.add child parent) Hooks.empty
    let script : List Command := [.prepare "added" parent true "id", .post "added" child, .post "added" child]
    ((replay (new sources {} none) script).events.filter Event.marks).map (fun e => (e.op, e.event)) =
      [(some LevelGraph.buildOp, some startEvent), (some LevelGraph.buildOp, some endEvent),
        (some Refresher.op, some startEvent), (some LevelGraph.buildOp, some startEvent), (some LevelGraph.buildOp, some endEvent),
        (some Difference.op, some startEvent), (some Difference.op, some endEvent), (some Refresher.op, some endEvent),
        (some Refresher.op, some startEvent), (some Refresher.op, some errorEvent)] := by
  decide +kernel

end Lineage.Session
