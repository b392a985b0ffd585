import Lineage.Session.Command
import Lineage.Proofs.Graph.Growth

/-!
# What commands leave alone

Every command of a session keeps a faithful context faithful, whether it fails or not, unless it puts an answer of its own into the
cache. Only a build makes a graph, growing changes no graph but the one it names, and only three commands change who is asking.
-/

namespace Lineage

/-! ## Exploring -/

namespace Exploring

variable {σ : Type} [Sources σ] {f : Ancestry} {total : Prop}

/-- What keeps a context faithful keeps it so while a path graph is explored. -/
theorem keeps_inContext {α : Type} {r : Run (Context σ) α} (h : Act.Keeps (Context.Faithful f total) r) :
    Act.Keeps (fun s : Exploring σ => s.context.Faithful f total) (inContext r) :=
  h.on (fun _ h => h) fun _ _ _ h => h

theorem keeps_askAll (t : Token) (cs : List Category) (found : List NodeId) :
    Act.Keeps (fun s : Exploring σ => s.context.Faithful f total) (askAll t cs found) := by
  induction cs generalizing found with
  | nil => exact Act.Keeps.pure found
  | cons c cs ih =>
    refine (keeps_inContext (Context.keeps_of_gives (Context.ask_spec c t))).bind fun a => ?_
    exact Act.Keeps.bind (fun _ h => h) ih

theorem keeps_parents (i : NodeId) : Act.Keeps (fun s : Exploring σ => s.context.Faithful f total) (parents i) := by
  refine Act.Keeps.get fun s => (Act.Keeps.ofExcept _).bind fun n => ?_
  split
  · exact Act.Keeps.pure _
  · refine (keeps_askAll _ _ _).bind fun ps => Act.Keeps.bind ?_ fun _ => Act.Keeps.pure ps
    exact fun _ h => h

/-- Gathering keeps what each of its steps keeps. -/
theorem keeps_gather {s α β : Type} {P : s → Prop} {r : α → Run s (Option (List β))} (h : ∀ a, Act.Keeps P (r a))
    (as : List α) : Act.Keeps P (gather r as) := by
  induction as with
  | nil => exact Act.Keeps.pure _
  | cons a as ih =>
    refine (h a).bind fun x => ?_
    cases x with
    | none => exact Act.Keeps.pure none
    | some bs =>
      refine ih.bind fun x => ?_
      cases x with
      | none => exact Act.Keeps.pure none
      | some bs' => exact Act.Keeps.pure _

theorem keeps_pathsWithin (n : Nat) (before : List NodeId) (last : NodeId) :
    Act.Keeps (fun s : Exploring σ => s.context.Faithful f total) (pathsWithin n before last) := by
  induction n generalizing before last with
  | zero => exact Act.Keeps.pure none
  | succ n ih =>
    refine (keeps_parents last).bind fun ps => ?_
    dsimp only
    split
    · exact Act.Keeps.pure _
    · refine (keeps_gather (fun i => ih _ i) _).bind fun x => ?_
      cases x with
      | none => exact Act.Keeps.pure none
      | some paths => exact Act.Keeps.pure _

theorem keeps_allPaths (limit : Nat) (i : NodeId) :
    Act.Keeps (fun s : Exploring σ => s.context.Faithful f total) (allPaths limit i) := by
  refine Act.Keeps.get fun s => (Act.Keeps.ofExcept _).bind fun t => ?_
  refine Act.Keeps.bind (Context.keeps_loggedBy ?_ fun e => ?_) fun listed => Act.Keeps.pure _
  · exact (keeps_pathsWithin limit [] i).bind fun paths => Act.Keeps.get fun _ => Act.Keeps.pure _
  · exact keeps_inContext (Context.keeps_of_gives (Context.emit_spec e))

end Exploring

/-! ## Refreshing -/

namespace Refreshing

variable {σ : Type} {f : Ancestry} {total : Prop}

/-- What a refresher at work knows of its context. -/
abbrev Sound [Sources σ] (f : Ancestry) (total : Prop) (s : Refreshing σ) : Prop := s.context.Faithful f total

variable [Sources σ]

theorem keeps_inContext {α : Type} {r : Run (Context σ) α} (h : Act.Keeps (Context.Faithful f total) r) :
    Act.Keeps (Sound f total) (inContext r) :=
  h.on (fun _ h => h) fun _ _ _ h => h

theorem keeps_emit (e : Log.Event) : Act.Keeps (Sound f total) (emit e : Run (Refreshing σ) Unit) :=
  keeps_inContext (Context.keeps_of_gives (Context.emit_spec e))

theorem keeps_change (g : Refresher → Refresher) : Act.Keeps (Sound f total) (change g : Run (Refreshing σ) Unit) :=
  fun _ h => h

theorem keeps_sendAll (id : String) (ts : List Token) :
    Act.Keeps (Sound f total) (sendAll id ts : Run (Refreshing σ) Unit) := by
  induction ts with
  | nil => exact Act.Keeps.pure ()
  | cons t ts ih => exact (keeps_emit _).bind fun _ => (keeps_change _).bind fun _ => ih

theorem keeps_send (ts : List Token) : Act.Keeps (Sound f total) (send ts : Run (Refreshing σ) Nat) := by
  refine Act.Keeps.get fun s => ?_
  dsimp only
  split
  · exact (keeps_sendAll _ ts).bind fun _ => Act.Keeps.pure _
  · exact (keeps_emit _).bind fun _ => Act.Keeps.pure 0

theorem keeps_find (before after : LevelGraph) :
    Act.Keeps (Context.Faithful f total) (Difference.find before after : Run (Context σ) (List Token)) :=
  Context.keeps_loggedBy (Act.Keeps.pure _) fun e => Context.keeps_of_gives (Context.emit_spec e)

theorem keeps_dispatch (scope : Scope) (child : Token) :
    Act.Keeps (Sound f total) (dispatch scope child : Run (Refreshing σ) Nat) := by
  refine Act.Keeps.get fun s => ?_
  dsimp only
  split
  · exact fun _ h => h
  · refine (keeps_change _).bind fun _ => ?_
    refine (keeps_inContext (LevelGraph.keeps_build scope .both child false)).bind fun after => ?_
    exact Act.Keeps.get fun _ => (keeps_inContext (keeps_find _ after)).bind fun ts => keeps_send ts

theorem keeps_post (scope : Scope) (child : Token) :
    Act.Keeps (Sound f total) (post scope child : Run (Refreshing σ) Nat) :=
  Act.Keeps.get fun _ => Context.keeps_loggedBy (keeps_dispatch scope child) keeps_emit

end Refreshing

/-! ## Sessions -/

namespace Refresher

variable {σ : Type} [Sources σ] {f : Ancestry} {total : Prop}

theorem keeps_new (scope : Scope) (requestId : String) (console : Bool) (parent : Token) :
    Act.Keeps (Context.Faithful f total) (new scope requestId console parent : Run (Context σ) Refresher) :=
  (Context.keeps_of_gives (Context.emit_spec _)).bind fun _ =>
    (LevelGraph.keeps_build scope .both parent false).bind fun _ => Act.Keeps.pure _

end Refresher

namespace Session

/-- The graph that a command lets grow. -/
def Command.grown? : Command → Option String
  | .expandAll name => some name
  | .findLevel name _ => some name
  | _ => none

/-- Whether a command puts an answer of its own into the cache. -/
def Command.feeds : Command → Bool
  | .keep .. => true
  | _ => false

/-- Whether a command changes who is asking, or makes a graph. -/
def Command.arranges : Command → Bool
  | .callAs _ | .callAsLoggedIn | .login _ | .build .. => true
  | _ => false

variable {σ : Type}

/-- `s'` may come after `s`: nobody else is asking, the context is faithful, and graphs with other names are the same. -/
structure Follows [Sources σ] (f : Ancestry) (total : Prop) (name : Option String) (s s' : Session σ) : Prop where
  faithful : s'.context.Faithful f total
  graphs : ∀ n, name ≠ some n → s'.graphs.find? n = s.graphs.find? n
  caller : s'.caller = s.caller
  login : s'.login = s.login

variable [Sources σ] {f : Ancestry} {total : Prop} {name : Option String} {s : Session σ}

theorem Follows.refl (h : s.context.Faithful f total) (name : Option String) : Follows f total name s s :=
  ⟨h, fun _ _ => rfl, rfl, rfl⟩

theorem keeps_inContext {α : Type} {r : Run (Context σ) α} (h : Act.Keeps (Context.Faithful f total) r) :
    Act.Keeps (Follows f total name s) (inContext r) :=
  (h.mapError _).on (fun _ hs => hs.faithful) fun _ _ hs hc => ⟨hc, hs.graphs, hs.caller, hs.login⟩

theorem keeps_graph (n : String) : Act.Keeps (Follows f total name s) (graph n : Doing σ LevelGraph) := by
  refine Act.Keeps.get fun s' => ?_
  split
  · exact Act.Keeps.pure _
  · exact Act.Keeps.fail _

theorem keeps_pathGraph (n : String) : Act.Keeps (Follows f total name s) (pathGraph n : Doing σ PathGraph) := by
  refine Act.Keeps.get fun s' => ?_
  split
  · exact Act.Keeps.pure _
  · exact Act.Keeps.fail _

theorem keeps_refresher (n : String) :
    Act.Keeps (Follows f total name s) (refresher n : Doing σ (Caller × Refresher)) := by
  refine Act.Keeps.get fun s' => ?_
  split
  · exact Act.Keeps.pure _
  · exact Act.Keeps.fail _

theorem keeps_pathNode (n : String) (t : Option Token) :
    Act.Keeps (Follows f total name s) (pathNode n t : Doing σ NodeId) := by
  refine (keeps_pathGraph n).bind fun g => ?_
  split
  · exact Act.Keeps.pure _
  · exact Act.Keeps.fail _

/-- Growing changes the graph that grows and the context, also when it fails. -/
theorem keeps_grow {α : Type} {n : String} {r : Run (Growing σ) α} (h : Act.Keeps (Growing.Sound f total) r) :
    Act.Keeps (Follows f total (some n) s) (grow n r) := by
  refine (keeps_graph n).bind fun g s' hs => ⟨h ⟨g, s'.context⟩ hs.faithful, fun m hm => ?_, hs.caller, hs.login⟩
  show (s'.graphs.set n _).find? m = _
  rw [Table.find?_set, if_neg fun hmn => hm (congrArg some hmn.symm), hs.graphs m hm]

theorem keeps_explore {α : Type} (n : String) {r : Run (Exploring σ) α}
    (h : Act.Keeps (fun s : Exploring σ => s.context.Faithful f total) r) :
    Act.Keeps (Follows f total name s) (explore n r) :=
  (keeps_pathGraph n).bind fun g s' hs => ⟨h ⟨g, s'.context⟩ hs.faithful, hs.graphs, hs.caller, hs.login⟩

theorem keeps_refresh {α : Type} (n : String) {r : Scope → Run (Refreshing σ) α}
    (h : ∀ scope, Act.Keeps (Refreshing.Sound f total) (r scope)) :
    Act.Keeps (Follows f total name s) (refresh n r) :=
  (keeps_refresher n).bind fun x s' hs => ⟨h _ ⟨x.2, s'.context⟩ hs.faithful, hs.graphs, hs.caller, hs.login⟩

/-- A command that neither feeds the cache nor arranges anything changes no graph but the one it lets grow. -/
theorem Command.keeps {cmd : Command} (hf : cmd.feeds = false) (ha : cmd.arranges = false) :
    Act.Keeps (Follows f total cmd.grown? s) (cmd.run : Doing σ Shown) := by
  cases cmd with
  | callAs | callAsLoggedIn | login | build => cases ha
  | keep => cases hf
  | whoAmI | stats | debugContext | debugCache => exact Act.Keeps.get fun _ => Act.Keeps.pure _
  | ask category t =>
    exact (keeps_inContext (Context.keeps_of_gives (Context.ask_spec category t))).bind fun _ => Act.Keeps.pure _
  | askMerged t =>
    exact (keeps_inContext (Context.keeps_of_gives (Context.askMerged_spec t))).bind fun _ => Act.Keeps.pure _
  | parents b scope t =>
    exact Act.Keeps.get fun _ =>
      (keeps_inContext (Context.keeps_of_gives (Context.parents_spec _ b t))).bind fun _ => Act.Keeps.pure _
  | lookup b user t =>
    refine (keeps_inContext ?_).bind fun _ => Act.Keeps.pure _
    exact (Context.lookup_spec b user t).keeps (fun _ _ h => h.2) fun _ _ h => h.elim
  | flush => exact (keeps_inContext (Context.keeps_of_gives Context.flush_spec)).bind fun _ => Act.Keeps.pure _
  | expandAll n =>
    exact (keeps_grow (Growing.keeps_expandAll Growing.keeps_expand)).bind fun _ => (keeps_graph n).bind fun _ => Act.Keeps.pure _
  | findLevel n k =>
    exact (keeps_grow (Growing.keeps_level? Growing.keeps_expand k)).bind fun _ => (keeps_graph n).bind fun _ => Act.Keeps.pure _
  | read n what => exact (keeps_graph n).bind fun _ => Act.Keeps.pure _
  | nodeOf n other t =>
    refine (keeps_graph other).bind fun g => ?_
    split
    · exact Act.Keeps.fail _
    · exact (keeps_graph n).bind fun _ => ((Act.Keeps.ofExcept _).mapError _).bind fun _ => Act.Keeps.pure _
  | diff before after take =>
    exact (keeps_graph before).bind fun _ => (keeps_graph after).bind fun _ =>
      (keeps_inContext (Refreshing.keeps_find _ _)).bind fun _ => Act.Keeps.pure _
  | start n root => exact Act.Keeps.bind (fun _ h => ⟨h.faithful, h.graphs, h.caller, h.login⟩) fun _ => Act.Keeps.pure _
  | linked n other t =>
    exact (keeps_pathNode other t).bind fun i => (keeps_explore n (Exploring.keeps_parents i)).bind fun _ =>
      (keeps_pathGraph n).bind fun _ => Act.Keeps.pure _
  | allPaths n other t =>
    exact (keeps_pathNode other t).bind fun i => (keeps_explore n (Exploring.keeps_allPaths _ i)).bind fun _ =>
      (keeps_pathGraph n).bind fun _ => Act.Keeps.pure _
  | pathToken n other t =>
    exact (keeps_pathNode other t).bind fun i => (keeps_pathGraph n).bind fun _ =>
      ((Act.Keeps.ofExcept _).mapError _).bind fun _ => Act.Keeps.pure _
  | isExpanded n other t =>
    exact (keeps_pathNode other t).bind fun i => (keeps_pathGraph n).bind fun _ => Act.Keeps.pure _
  | findPathNode n t | debugPaths n => exact (keeps_pathGraph n).bind fun _ => Act.Keeps.pure _
  | prepare n parent console requestId =>
    refine Act.Keeps.get fun s' => (keeps_inContext (Refresher.keeps_new _ _ _ _)).bind fun r => ?_
    exact Act.Keeps.bind (fun _ h => ⟨h.faithful, h.graphs, h.caller, h.login⟩) fun _ => Act.Keeps.pure _
  | post n child =>
    exact (keeps_refresh n fun scope => Refreshing.keeps_post scope child).bind fun _ =>
      (keeps_refresher n).bind fun _ => Act.Keeps.pure _
  | readBefore n | readConsole n | debugRefresher n => exact (keeps_refresher n).bind fun _ => Act.Keeps.pure _
  | debugSources | debugServices => exact Act.Keeps.pure _

/-- A build that fails changes no graph. -/
theorem follows_of_build {n : String} {root : Token} {search : Search} {onlyOne : Bool} {e : Failure} {s' : Session σ}
    (hs : s.context.Faithful f total) (h : (Command.build n root search onlyOne).run s = (.error e, s')) :
    Follows f total none s s' := by
  have hb : Act.Keeps (Follows f total none s)
      (inContext (LevelGraph.build s.scope search root onlyOne) : Doing σ LevelGraph) :=
    keeps_inContext (LevelGraph.keeps_build _ search root onlyOne)
  have hf := hb s (Follows.refl hs none)
  rcases hr : (inContext (LevelGraph.build s.scope search root onlyOne) : Doing σ LevelGraph) s with ⟨e' | g, s''⟩
  · rw [hr] at hf
    have h' : (inContext (LevelGraph.build s.scope search root onlyOne) >>= fun g => do
        keepGraph n g
        pure (.summary g) : Doing σ Shown) s = (.error e, s') := h
    rw [Act.bind_of_error hr] at h'
    cases h'
    exact hf
  · have h' : (inContext (LevelGraph.build s.scope search root onlyOne) >>= fun g => do
        keepGraph n g
        pure (.summary g) : Doing σ Shown) s = (.error e, s') := h
    rw [Act.bind_of_ok hr] at h'
    cases h'

end Session
end Lineage
