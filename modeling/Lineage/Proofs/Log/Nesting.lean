import Lineage.Graph.Paths
import Lineage.Proofs.Refresher

/-!
# Logs are well nested

An operation that is logged frames what is logged while it runs: first comes its start, then what is logged inside, then the one end that
its result calls for. Everything else that the library logs is plain, or is said by the innermost operation that is running. So whatever
is asked and whoever fails, a log is a sequence of plain events and of frames in frames, and nothing in it is left open.
-/

namespace Lineage

namespace Log

/-- Whether an event is the start or the end of an operation. -/
def Event.marks (e : Event) : Bool := e.event = some startEvent || e.event = some endEvent || e.event = some errorEvent

/-- An event that neither begins nor ends an operation, and names none. -/
def Event.Plain (e : Event) : Prop := e.marks = false ∧ e.op = none

/-- A log of plain events. -/
def Plain (es : List Event) : Prop := ∀ e ∈ es, e.Plain

/-- The end that the result of an operation calls for. An error is named by its kind and its code. -/
def Closes {α : Type} (target op : String) : Except Error α → Event → Prop
  | .ok _, e => ∃ fields, e = ended target op .elapsed fields
  | .error error, e => ∃ fields, e = failed target op .elapsed error fields

/-- What was logged of an operation that came to a result: its start, what was logged inside, and the end that the result calls for. -/
def Framed {α : Type} (target op : String) (x : Except Error α) (inside es : List Event) : Prop :=
  ∃ fields closing, Closes target op x closing ∧ es = started target op fields :: (inside ++ [closing])

/-- An operation that was run from a state logged the events of a frame. -/
def Logged {s α : Type} (out : s → List Event) (target op : String) (r : Run s α) (st : s) (inside es : List Event) : Prop :=
  out (r st).2 = out st ++ es ∧ Framed target op (r st).1 inside es

/-- The operations that are running after an event, the innermost first. None but the innermost can end. -/
def follow (running : List (Option String)) (e : Event) : Option (List (Option String)) :=
  if e.event = some startEvent then some (e.op :: running)
  else if e.event = some endEvent ∨ e.event = some errorEvent then
    match running with
    | [] => none
    | op :: rest => if e.op = op then some rest else none
  else some running

/-- Whether each operation of a log ends, after those that began inside it. -/
def Balanced (es : List Event) : Prop := es.foldlM follow [] = some []

instance (es : List Event) : Decidable (Balanced es) := inferInstanceAs (Decidable (_ = _))

instance : Act.Joins Plain := ⟨List.forall_mem_nil _, fun hes hfs => List.forall_mem_append.2 ⟨hes, hfs⟩⟩

end Log

/-! ## The logs of operations -/

/-- What a context has logged. -/
def Context.events {σ : Type} (c : Context σ) : List Log.Event := c.log.toList

def Growing.events {σ : Type} (s : Growing σ) : List Log.Event := s.context.events

def Exploring.events {σ : Type} (s : Exploring σ) : List Log.Event := s.context.events

def Refreshing.events {σ : Type} (s : Refreshing σ) : List Log.Event := s.context.events

namespace Log

variable {σ : Type} [Sources σ] {α : Type} {target op : String} {o : Option String} {x : Except Error α} {e : Event}
  {inside es fs : List Event}

/-- The events are those of a run of an operation: that which has the name `op`, from some state. -/
inductive Ran (σ : Type) [Sources σ] : String → List Event → List Event → Prop where
  | build (scope : Scope) (search : Search) (root : Token) (onlyOne : Bool) (c : Context σ) {inside es : List Event} :
      Logged Context.events LevelGraph.target LevelGraph.buildOp (LevelGraph.build scope search root onlyOne) c inside es →
      Ran σ LevelGraph.buildOp inside es
  | find (before after : LevelGraph) (c : Context σ) {inside es : List Event} :
      Logged Context.events Difference.target Difference.op (Difference.find before after) c inside es →
      Ran σ Difference.op inside es
  | paths (limit : Nat) (i : NodeId) (s : Exploring σ) {inside es : List Event} :
      Logged Exploring.events PathGraph.target PathGraph.pathsOp (Exploring.allPaths limit i) s inside es →
      Ran σ PathGraph.pathsOp inside es
  | post (scope : Scope) (child : Token) (s : Refreshing σ) {inside es : List Event} :
      Logged Refreshing.events Refresher.target Refresher.op (Refreshing.post scope child) s inside es →
      Ran σ Refresher.op inside es

/-- A log that is well nested, of what happens while `o` is the innermost operation that is running. What is not logged by an operation
inside is no start and no end, and names no other operation. -/
inductive Nested (σ : Type) [Sources σ] : Option String → List Event → Prop where
  | nil {o : Option String} : Nested σ o []
  | said {o : Option String} {e : Event} {es : List Event} :
      e.marks = false → e.op = none ∨ e.op = o → Nested σ o es → Nested σ o (e :: es)
  | ran {o : Option String} {op : String} {inside es fs : List Event} :
      Ran σ op inside es → Nested σ (some op) inside → Nested σ o fs → Nested σ o (es ++ fs)

/-! ## What frames and nested logs have in common -/

/-- Which value a success has does not matter. -/
theorem Framed.of_ok {β : Type} {a : α} {b : β} (h : Framed target op (.ok a) inside es) :
    Framed target op (.ok b : Except Error β) inside es := h

theorem Framed.of_error {β : Type} {error : Error} (h : Framed target op (.error error : Except Error α) inside es) :
    Framed target op (.error error : Except Error β) inside es := h

/-- What is done with the value of an operation that was logged does not matter. -/
theorem Logged.map {s β : Type} {out : s → List Event} {r : Run s α} {st : s} {f : α → β} (h : Logged out target op r st inside es) :
    Logged out target op (r >>= fun a => pure (f a)) st inside es := by
  unfold Logged at h ⊢
  rcases hr : r st with ⟨error | a, st'⟩
  · rw [hr] at h
    rw [Act.bind_of_error hr]
    exact ⟨h.1, h.2.of_error⟩
  · rw [hr] at h
    rw [Act.bind_of_ok hr]
    exact ⟨h.1, h.2.of_ok⟩

theorem Framed.shape (h : Framed target op x inside es) : ∃ fields closing, es = started target op fields :: (inside ++ [closing]) ∧
    closing.op = some op ∧ (closing.event = some endEvent ∨ closing.event = some errorEvent) := by
  obtain ⟨fields, closing, hcloses, rfl⟩ := h
  refine ⟨fields, closing, rfl, ?_⟩
  cases x with
  | ok a =>
    obtain ⟨_, rfl⟩ := hcloses
    exact ⟨rfl, Or.inl rfl⟩
  | error error =>
    obtain ⟨_, rfl⟩ := hcloses
    exact ⟨rfl, Or.inr rfl⟩

/-- What is not logged inside a frame is said by its operation. -/
theorem Framed.op_of_mem (h : Framed target op x inside es) (he : e ∈ es) : e ∈ inside ∨ e.op = some op := by
  obtain ⟨fields, closing, rfl, hop, -⟩ := h.shape
  rcases List.mem_cons.1 he with rfl | he
  · exact Or.inr rfl
  · rcases List.mem_append.1 he with he | he
    · exact Or.inl he
    · rw [List.mem_singleton.1 he]
      exact Or.inr hop

/-- What a run logged is a frame. -/
theorem Ran.framed (h : Ran σ op inside es) : ∃ target, ∃ x : Except Error Unit, Framed target op x inside es := by
  have hunit : ∀ {β : Type} {target op : String} {y : Except Error β}, Framed target op y inside es →
      ∃ target, ∃ x : Except Error Unit, Framed target op x inside es := by
    intro β target op y hy
    cases y with
    | ok b => exact ⟨target, .ok (), hy.of_ok⟩
    | error e => exact ⟨target, .error e, hy.of_error⟩
  cases h with
  | build _ _ _ _ _ hl => exact hunit hl.2
  | find _ _ _ hl => exact hunit hl.2
  | paths _ _ _ hl => exact hunit hl.2
  | post _ _ _ hl => exact hunit hl.2

theorem Nested.append (h : Nested σ o es) (h' : Nested σ o fs) : Nested σ o (es ++ fs) := by
  induction h with
  | nil => exact h'
  | said hm hop _ ih => exact .said hm hop (ih h')
  | ran hr hi _ _ ih =>
    rw [List.append_assoc]
    exact .ran hr hi (ih h')

theorem nested_of_plain (h : Plain es) : Nested σ o es := by
  induction es with
  | nil => exact .nil
  | cons e es ih =>
    obtain ⟨hm, hop⟩ := h e List.mem_cons_self
    exact .said hm (Or.inl hop) (ih fun e' he' => h e' (List.mem_cons_of_mem e he'))

/-- What one run logged is well nested if it is so inside. -/
theorem Ran.nested (h : Ran σ op inside es) (hi : Nested σ (some op) inside) : Nested σ o es := by
  have hall := Nested.ran h hi (Nested.nil (o := o))
  rwa [List.append_nil] at hall

theorem follow_of_not_marks (h : e.marks = false) (running : List (Option String)) : Log.follow running e = some running := by
  obtain ⟨⟨hstart, hend⟩, herror⟩ : (¬e.event = some startEvent ∧ ¬e.event = some endEvent) ∧ ¬e.event = some errorEvent := by
    simpa only [Event.marks, Bool.or_eq_false_iff, decide_eq_false_iff_not] using h
  unfold Log.follow
  rw [if_neg hstart, if_neg (not_or.2 ⟨hend, herror⟩)]

/-- After what is well nested the same operations are running as before. -/
theorem Nested.follow (h : Nested σ o es) (running : List (Option String)) : es.foldlM Log.follow running = some running := by
  induction h generalizing running with
  | nil => rfl
  | @said o e es hm _ _ ih =>
    rw [List.foldlM_cons, follow_of_not_marks hm]
    exact ih running
  | @ran o op inside es fs hr _ _ ihi ih =>
    obtain ⟨target, x, hx⟩ := hr.framed
    obtain ⟨fields, closing, rfl, hop, hevent⟩ := hx.shape
    have hstart : closing.event ≠ some startEvent := by
      rcases hevent with h | h <;> rw [h] <;> decide
    have hopen : Log.follow running (started target op fields) = some (some op :: running) := rfl
    have hclose : Log.follow (some op :: running) closing = some running := by
      unfold Log.follow
      rw [if_neg hstart, if_pos hevent]
      exact if_pos hop
    rw [List.cons_append, List.append_assoc, List.foldlM_cons, hopen]
    show (inside ++ ([closing] ++ fs)).foldlM Log.follow (some op :: running) = some running
    rw [List.foldlM_append, ihi]
    show ([closing] ++ fs).foldlM Log.follow (some op :: running) = some running
    rw [List.singleton_append, List.foldlM_cons, hclose]
    exact ih running

theorem Nested.balanced (h : Nested σ o es) : Balanced es := h.follow []

/-- A log that is well nested wherever it stands, and in which no refresher posts. -/
structure Aside (σ : Type) [Sources σ] (es : List Event) : Prop where
  nested : ∀ o, Nested σ o es
  unposted : ∀ e ∈ es, e.op ≠ some Refresher.op

theorem aside_of_plain (h : Plain es) : Aside σ es :=
  ⟨fun _ => nested_of_plain h, fun e he hop => Option.some_ne_none _ (hop.symm.trans (h e he).2)⟩

theorem writes_aside {ε s : Type} {out : s → List Event} {r : Act ε s α} (h : Act.Writes out Plain r) : Act.Writes out (Aside σ) r :=
  h.weaken fun _ => aside_of_plain

instance : Act.Joins (Aside σ) where
  nil := aside_of_plain (List.forall_mem_nil _)
  append h h' := ⟨fun o => (h.nested o).append (h'.nested o), List.forall_mem_append.2 ⟨h.unposted, h'.unposted⟩⟩

/-- A run that says nothing itself but its start and its end, and is none of a refresher, stands aside. -/
theorem Ran.aside (h : Ran σ op inside es) (hi : Plain inside) (hop : op ≠ Refresher.op) : Aside σ es := by
  refine ⟨fun _ => h.nested (nested_of_plain hi), fun e he hpost => ?_⟩
  obtain ⟨target, x, hx⟩ := h.framed
  rcases hx.op_of_mem he with hinside | hsame
  · exact (aside_of_plain (σ := σ) hi).unposted e hinside hpost
  · exact hop (Option.some.inj (hsame.symm.trans hpost))

end Log

/-! ## Contexts -/

namespace Context

open Log

variable {σ : Type}

/-- The context after an event was logged. -/
def logging (e : Event) (c : Context σ) : Context σ := { c with log := c.log.push e }

theorem emit_apply (e : Event) (c : Context σ) : emit e c = (.ok (), c.logging e) := rfl

theorem events_logging (e : Event) (c : Context σ) : (c.logging e).events = c.events ++ [e] := Array.toList_push

theorem lookup_plainly (b : Branch) (scope : Scope) (t : Token) :
    Act.Writes events Plain (lookup b scope t : Run (Context σ) (Option Cache.Entry)) := by
  intro c
  unfold lookup
  cases c.cache.userFor scope with
  | none => exact ⟨[], (List.append_nil _).symm, List.forall_mem_nil _⟩
  | some user => exact ⟨[_], Array.toList_push, List.forall_mem_singleton.2 ⟨rfl, rfl⟩⟩

theorem keep_plainly (b : Branch) (scope : Scope) (t : Token) (a : Answer) :
    Act.Writes events Plain (keep b scope t a : Run (Context σ) Unit) := by
  intro c
  unfold keep
  rcases c.cache.add b scope t a with ⟨cache, _ | dropped⟩
  · exact ⟨[], (List.append_nil _).symm, List.forall_mem_nil _⟩
  · exact ⟨[_], Array.toList_push, List.forall_mem_singleton.2 ⟨rfl, rfl⟩⟩

theorem flush_plainly : Act.Writes events Plain (flush : Run (Context σ) Unit) := Act.Writes.nothing fun _ => rfl

/-- The end of an operation that is logged. -/
def closing {α : Type} (target op : String) (onSuccess : α → List (String × Value)) (onFailure : List (String × Value)) :
    Except Error α → Event
  | .ok a => ended target op .elapsed (onSuccess a)
  | .error e => failed target op .elapsed e onFailure

theorem closes_closing {α : Type} (target op : String) (onSuccess : α → List (String × Value)) (onFailure : List (String × Value))
    (x : Except Error α) : Closes target op x (closing target op onSuccess onFailure x) := by
  cases x with
  | ok a => exact ⟨_, rfl⟩
  | error e => exact ⟨_, rfl⟩

/-- An operation that is logged runs where its start was logged, and its end is logged where it comes to a result. -/
theorem loggedBy_apply {s α : Type} {emit : Event → Run s Unit} {put : Event → s → s} (hemit : ∀ e st, emit e st = (.ok (), put e st))
    (target op : String) (fields : List (String × Value)) (onSuccess : α → List (String × Value)) (onFailure : List (String × Value))
    (r : Run s α) (st : s) :
    loggedBy emit target op fields onSuccess onFailure r st =
      ((r (put (started target op fields) st)).1,
        put (closing target op onSuccess onFailure (r (put (started target op fields) st)).1)
          (r (put (started target op fields) st)).2) := by
  have hattempt : Act.attempt r (put (started target op fields) st) =
      ((.ok (r (put (started target op fields) st)).1 : Except Error (Except Error α)), (r (put (started target op fields) st)).2) := rfl
  unfold loggedBy
  rw [Act.bind_of_ok (hemit _ st), Act.bind_of_ok hattempt]
  cases (r (put (started target op fields) st)).1 with
  | ok a => exact Act.bind_of_ok (hemit _ _)
  | error e => exact Act.bind_of_ok (hemit _ _)

/-- So what it logs is a frame around what it logs otherwise. -/
theorem loggedBy_logged {s α : Type} {out : s → List Event} {emit : Event → Run s Unit} {put : Event → s → s}
    (hemit : ∀ e st, emit e st = (.ok (), put e st)) (hput : ∀ e st, out (put e st) = out st ++ [e]) {target op : String}
    {fields : List (String × Value)} {onSuccess : α → List (String × Value)} {onFailure : List (String × Value)} {r : Run s α} {st : s}
    {inside : List Event}
    (hinside : out (r (put (started target op fields) st)).2 = out (put (started target op fields) st) ++ inside) :
    Logged out target op (loggedBy emit target op fields onSuccess onFailure r) st inside
      (started target op fields ::
        (inside ++ [closing target op onSuccess onFailure (r (put (started target op fields) st)).1])) := by
  unfold Logged
  rw [loggedBy_apply hemit]
  refine ⟨?_, fields, _, closes_closing target op onSuccess onFailure _, rfl⟩
  rw [hput, hinside, hput, List.append_assoc, List.append_assoc, List.singleton_append]

variable [Sources σ]

theorem ask_plainly (category : Category) (t : Token) : Act.Writes events Plain (ask category t : Run (Context σ) Answer) := by
  refine Act.Writes.nothing fun c => ?_
  unfold ask
  rcases Sources.ask category t c.sources with ⟨cause | a, sources⟩ <;> rfl

theorem askMerged_plainly (t : Token) : Act.Writes events Plain (askMerged t : Run (Context σ) Answer) :=
  (ask_plainly .auxiliary t).bind fun _ => (ask_plainly .hooking t).bind fun _ => Act.Writes.pure _

theorem askBranch_plainly (b : Branch) (t : Token) : Act.Writes events Plain (askBranch b t : Run (Context σ) Answer) := by
  cases b with
  | native => exact ask_plainly .native t
  | hooked => exact askMerged_plainly t

theorem parents_plainly (scope : Scope) (b : Branch) (t : Token) :
    Act.Writes events Plain (parents scope b t : Run (Context σ) Answer) := by
  refine (lookup_plainly b scope t).bind fun found => ?_
  cases found with
  | some entry => exact Act.Writes.pure _
  | none => exact (askBranch_plainly b t).bind fun a => (keep_plainly b scope t a).bind fun _ => Act.Writes.pure a

end Context

/-! ## Level graphs -/

namespace Growing

open Log

variable {σ : Type}

theorem inContext_plainly {α : Type} {r : Run (Context σ) α} (h : Act.Writes Context.events Plain r) :
    Act.Writes events Plain (inContext r) :=
  h.on (fun _ => rfl) fun _ _ => rfl

theorem change_plainly (f : LevelGraph → LevelGraph) : Act.Writes events Plain (change f : Run (Growing σ) Unit) :=
  Act.Writes.nothing fun _ => rfl

variable [Sources σ]

theorem answer_plainly (qs : List (NodeId × Branch)) : Act.Writes events Plain (answer qs : Run (Growing σ) Unit) := by
  induction qs with
  | nil => exact Act.Writes.pure ()
  | cons q qs ih =>
    refine Act.Writes.get fun s => ?_
    cases s.graph.token? q.1 with
    | none => exact ih
    | some t =>
      exact Act.Writes.get fun s => (inContext_plainly (Context.parents_plainly _ q.2 t)).bind fun _ =>
        (change_plainly _).bind fun _ => ih

/-- While a graph grows, lookups and overflows are logged and nothing else. -/
theorem expand_plainly : Act.Writes events Plain (expand : Run (Growing σ) Unit) := by
  refine Act.Writes.get fun s => ?_
  dsimp only
  split
  · exact Act.Writes.fail _
  · exact (change_plainly _).bind fun _ => (answer_plainly _).bind fun _ => change_plainly _

theorem expandTimes_plainly (n : Nat) : Act.Writes events Plain (expandTimes n : Run (Growing σ) Unit) := by
  induction n with
  | zero => exact Act.Writes.pure ()
  | succ n ih =>
    refine Act.Writes.get fun s => ?_
    split
    · exact expand_plainly.bind fun _ => ih
    · exact Act.Writes.pure ()

theorem expandAll_plainly : Act.Writes events Plain (expandAll : Run (Growing σ) Unit) :=
  expand_plainly.bind fun _ => expandTimes_plainly _

theorem level?_plainly (n : Nat) : Act.Writes events Plain (level? n : Run (Growing σ) (Option (List NodeId))) :=
  Act.Writes.get fun _ => (expandTimes_plainly _).bind fun _ => Act.Writes.get fun _ => Act.Writes.pure _

end Growing

namespace LevelGraph

open Log

variable {σ : Type} [Sources σ]

theorem grow_plainly (g : LevelGraph) (onlyOne : Bool) :
    Act.Writes Context.events Plain (grow g onlyOne : Run (Context σ) LevelGraph) := by
  have hexpand : Act.Writes Growing.events Plain (if onlyOne then Growing.expand else Growing.expandAll : Run (Growing σ) Unit) := by
    cases onlyOne
    · exact Growing.expandAll_plainly
    · exact Growing.expand_plainly
  intro c
  obtain ⟨es, hes, hplain⟩ := hexpand ⟨g, c⟩
  unfold grow
  rcases hr : (if onlyOne then Growing.expand else Growing.expandAll : Run (Growing σ) Unit) ⟨g, c⟩ with ⟨_ | _, s⟩
  · rw [hr] at hes
    exact ⟨es, hes, hplain⟩
  · rw [hr] at hes
    exact ⟨es, hes, hplain⟩

/-- The building of a graph is a frame with nothing in it but lookups and overflows. -/
theorem logged_build (scope : Scope) (search : Search) (root : Token) (onlyOne : Bool) (c : Context σ) :
    ∃ inside es, Logged Context.events target buildOp (build scope search root onlyOne) c inside es ∧ Plain inside := by
  obtain ⟨inside, hinside, hplain⟩ := grow_plainly (start scope search root) onlyOne (c.logging _)
  exact ⟨inside, _, Context.loggedBy_logged Context.emit_apply Context.events_logging hinside, hplain⟩

theorem build_aside (scope : Scope) (search : Search) (root : Token) (onlyOne : Bool) :
    Act.Writes Context.events (Aside σ) (build scope search root onlyOne : Run (Context σ) LevelGraph) := by
  intro c
  obtain ⟨inside, es, hl, hplain⟩ := logged_build scope search root onlyOne c
  exact ⟨es, hl.1, (Ran.build scope search root onlyOne c hl).aside hplain (by decide)⟩

end LevelGraph

/-! ## Differences -/

namespace Difference

open Log

variable {σ : Type}

/-- Looking for a difference is a frame with nothing in it. It cannot fail. -/
theorem logged_find (before after : LevelGraph) (c : Context σ) :
    (find before after c).1 = .ok (tokens before after) ∧
      ∃ es, Logged Context.events target op (find before after) c [] es := by
  refine ⟨?_, _, Context.loggedBy_logged Context.emit_apply Context.events_logging (List.append_nil _).symm⟩
  unfold find
  rw [Context.loggedBy_apply Context.emit_apply]
  rfl

theorem find_aside [Sources σ] (before after : LevelGraph) :
    Act.Writes Context.events (Aside σ) (find before after : Run (Context σ) (List Token)) := by
  intro c
  obtain ⟨-, es, hl⟩ := logged_find before after c
  exact ⟨es, hl.1, (Ran.find before after c hl).aside (List.forall_mem_nil _) (by decide)⟩

end Difference

/-! ## Path graphs -/

namespace Exploring

open Log

variable {σ : Type}

theorem inContext_plainly {α : Type} {r : Run (Context σ) α} (h : Act.Writes Context.events Plain r) :
    Act.Writes events Plain (inContext r) :=
  h.on (fun _ => rfl) fun _ _ => rfl

/-- The state after an event was logged. -/
def logging (e : Event) (s : Exploring σ) : Exploring σ := { s with context := s.context.logging e }

theorem emit_apply (e : Event) (s : Exploring σ) : inContext (Context.emit e) s = (.ok (), s.logging e) := rfl

theorem events_logging (e : Event) (s : Exploring σ) : (s.logging e).events = s.events ++ [e] := s.context.events_logging e

theorem link_plainly (found : List NodeId) (ts : List Token) :
    Act.Writes events Plain (link found ts : Run (Exploring σ) (List NodeId)) :=
  Act.Writes.nothing fun _ => rfl

/-- Gathering logs plainly what each of its steps logs plainly. -/
theorem gather_plainly {s α β : Type} {out : s → List Event} {r : α → Run s (Option (List β))} (h : ∀ a, Act.Writes out Plain (r a))
    (as : List α) : Act.Writes out Plain (gather r as) := by
  induction as with
  | nil => exact Act.Writes.pure _
  | cons a as ih =>
    refine (h a).bind fun x => ?_
    cases x with
    | none => exact Act.Writes.pure none
    | some bs =>
      refine ih.bind fun x => ?_
      cases x with
      | none => exact Act.Writes.pure none
      | some bs' => exact Act.Writes.pure _

variable [Sources σ]

theorem askAll_plainly (t : Token) (cs : List Category) (found : List NodeId) :
    Act.Writes events Plain (askAll t cs found : Run (Exploring σ) (List NodeId)) := by
  induction cs generalizing found with
  | nil => exact Act.Writes.pure found
  | cons c cs ih =>
    exact (inContext_plainly (Context.ask_plainly c t)).bind fun _ => (link_plainly _ _).bind fun found => ih found

theorem parents_plainly (i : NodeId) : Act.Writes events Plain (parents i : Run (Exploring σ) (List NodeId)) := by
  refine Act.Writes.get fun s => Act.Writes.bind (Act.Writes.nothing fun _ => rfl) fun n => ?_
  cases n.parents with
  | some ps => exact Act.Writes.pure ps
  | none => exact (askAll_plainly _ _ _).bind fun ps => Act.Writes.bind (Act.Writes.nothing fun _ => rfl) fun _ => Act.Writes.pure ps

theorem pathsWithin_plainly (n : Nat) (before : List NodeId) (last : NodeId) :
    Act.Writes events Plain (pathsWithin n before last : Run (Exploring σ) _) := by
  induction n generalizing before last with
  | zero => exact Act.Writes.pure none
  | succ n ih =>
    refine (parents_plainly last).bind fun ps => ?_
    dsimp only
    split
    · exact Act.Writes.pure _
    · refine (gather_plainly (fun i => ih _ i) _).bind fun x => ?_
      cases x with
      | none => exact Act.Writes.pure none
      | some paths => exact Act.Writes.pure _

/-- The listing of paths is a frame with nothing but plain events in it. From a node that is not there no paths are listed, and nothing
is logged. -/
theorem logged_allPaths (limit : Nat) (i : NodeId) (s : Exploring σ) :
    (∃ inside es, Logged events PathGraph.target PathGraph.pathsOp (allPaths limit i) s inside es ∧ Plain inside) ∨
      ∃ e, s.graph.token i = .error e ∧ allPaths limit i s = (.error e, s) := by
  cases ht : s.graph.token i with
  | error e =>
    refine Or.inr ⟨e, rfl, ?_⟩
    unfold allPaths
    rw [Act.bind_of_ok (Act.get_apply s), ht]
    rfl
  | ok t =>
    have hlist : Act.Writes events Plain (do
        let paths ← pathsWithin limit [] i
        let g := (← Act.get).graph
        pure (paths.map (·.map g.tokens), g.size) : Run (Exploring σ) _) :=
      (pathsWithin_plainly limit [] i).bind fun paths => Act.Writes.get fun s => Act.Writes.pure _
    have hknown : Act.ofExcept (s.graph.token i) s = (.ok t, s) := Prod.ext ht rfl
    obtain ⟨inside, hinside, hplain⟩ :=
      hlist (s.logging (started PathGraph.target PathGraph.pathsOp [("token", .text t.display)]))
    refine Or.inl ⟨inside, ?_⟩
    unfold Logged allPaths
    rw [Act.bind_of_ok (Act.get_apply s), Act.bind_of_ok hknown]
    exact ⟨_, (Context.loggedBy_logged emit_apply events_logging hinside).map, hplain⟩

theorem allPaths_aside (limit : Nat) (i : NodeId) :
    Act.Writes events (Aside σ) (allPaths limit i : Run (Exploring σ) (Option (List (List Token)))) := by
  intro s
  rcases logged_allPaths limit i s with ⟨inside, es, hl, hplain⟩ | ⟨e, -, hrun⟩
  · exact ⟨es, hl.1, (Ran.paths limit i s hl).aside hplain (by decide)⟩
  · rw [hrun]
    exact ⟨[], (List.append_nil _).symm, Act.Joins.nil⟩

end Exploring

/-! ## Refreshers -/

namespace Refreshing

open Log

variable {σ : Type} {id : String} {es fs : List Event}

/-- What is said of the sending of tokens: plain events, and those of the post under the request id. -/
def Told (id : String) (e : Event) : Prop :=
  e.marks = false ∧ (e.op = none ∨ e.op = some Refresher.op ∧ Refresher.requestField id ∈ e.fields)

/-- Every event of a post carries the request id. -/
def Signed (id : String) (es : List Event) : Prop := ∀ e ∈ es, e.op = some Refresher.op → Refresher.requestField id ∈ e.fields

theorem Signed.append (h : Signed id es) (h' : Signed id fs) : Signed id (es ++ fs) := List.forall_mem_append.2 ⟨h, h'⟩

/-- The state after an event was logged. -/
def logging (e : Event) (s : Refreshing σ) : Refreshing σ := { s with context := s.context.logging e }

theorem emit_apply (e : Event) (s : Refreshing σ) : emit e s = (.ok (), s.logging e) := rfl

theorem events_logging (e : Event) (s : Refreshing σ) : (s.logging e).events = s.events ++ [e] := s.context.events_logging e

theorem inContext_of_eq {α : Type} {r : Run (Context σ) α} {s : Refreshing σ} {x : Except Error α} {c : Context σ}
    (h : r s.context = (x, c)) : inContext r s = (x, { s with context := c }) := by
  unfold inContext Act.on
  rw [h]

theorem sendAll_told (id : String) (ts : List Token) (s : Refreshing σ) :
    ∃ s' said, sendAll id ts s = (.ok (), s') ∧ s'.events = s.events ++ said ∧ ∀ e ∈ said, Told id e := by
  induction ts generalizing s with
  | nil => exact ⟨s, [], rfl, (List.append_nil _).symm, List.forall_mem_nil _⟩
  | cons t ts ih =>
    let e := Refresher.sendingEvent id t
    obtain ⟨s', said, hrun, hout, htold⟩ :=
      ih ⟨{ s.refresher with console := some (s.refresher.sent ++ [t]) }, s.context.logging e⟩
    refine ⟨s', e :: said, hrun, ?_, List.forall_mem_cons.2 ⟨⟨rfl, Or.inl rfl⟩, htold⟩⟩
    rw [hout]
    show (s.logging e).events ++ said = _
    rw [s.events_logging, List.append_assoc, List.singleton_append]

/-- Sending cannot fail. -/
theorem send_told (ts : List Token) (s : Refreshing σ) :
    ∃ n s' said, send ts s = (.ok n, s') ∧ s'.events = s.events ++ said ∧ ∀ e ∈ said, Told s.refresher.requestId e := by
  cases hconsole : s.refresher.console with
  | some _ =>
    obtain ⟨s', said, hrun, hout, htold⟩ := sendAll_told s.refresher.requestId ts s
    refine ⟨ts.length, s', said, ?_, hout, htold⟩
    unfold send
    rw [Act.bind_of_ok (Act.get_apply s), hconsole]
    exact Act.bind_of_ok hrun
  | none =>
    refine ⟨0, s.logging (Refresher.missingEvent s.refresher.requestId ts.length), [_], ?_, s.events_logging _,
      List.forall_mem_singleton.2 ⟨rfl, Or.inr ⟨rfl, ?_⟩⟩⟩
    · unfold send
      rw [Act.bind_of_ok (Act.get_apply s), hconsole]
      rfl
    · exact List.mem_cons_of_mem _ List.mem_cons_self

variable [Sources σ]

/-- What a post comes to between its start and its end, and what is logged there. A refresher that was used is refused, and nothing is
logged. Else comes the frame of the building of the child's graph. If that succeeded, there follow the frame of the search for the
difference, and what is said of the sending. -/
inductive Dispatches (scope : Scope) (child : Token) (s : Refreshing σ) : Except Error Nat → List Event → Prop where
  | refused : s.refresher.posted = true → Dispatches scope child s (.error .alreadyPosted) []
  | failed {error : Error} {c : Context σ} {gathered es : List Event} : s.refresher.posted = false →
      LevelGraph.build scope .both child false s.context = (.error error, c) →
      Logged Context.events LevelGraph.target LevelGraph.buildOp (LevelGraph.build scope .both child false) s.context gathered es →
      Plain gathered → Dispatches scope child s (.error error) es
  | sent {after : LevelGraph} {c : Context σ} {n : Nat} {gathered es fs said : List Event} : s.refresher.posted = false →
      LevelGraph.build scope .both child false s.context = (.ok after, c) →
      Logged Context.events LevelGraph.target LevelGraph.buildOp (LevelGraph.build scope .both child false) s.context gathered es →
      Plain gathered →
      Logged Context.events Difference.target Difference.op (Difference.find s.refresher.before after) c [] fs →
      (∀ e ∈ said, Told s.refresher.requestId e) → Dispatches scope child s (.ok n) (es ++ fs ++ said)

variable {scope : Scope} {child : Token} {s : Refreshing σ} {x : Except Error Nat} {inside : List Event}

/-- A refresher that was used is refused. -/
theorem dispatch_of_posted (scope : Scope) (child : Token) (h : s.refresher.posted = true) :
    dispatch scope child s = (.error .alreadyPosted, s) := by
  unfold dispatch
  rw [Act.bind_of_ok (Act.get_apply s), h]
  rfl

/-- A refresher that was not used is used up, and then gets to work. -/
theorem dispatch_of_unposted (scope : Scope) (child : Token) (h : s.refresher.posted = false) :
    dispatch scope child s = (do
      let after ← inContext (LevelGraph.build scope .both child false)
      let tokens ← inContext (Difference.find (← Act.get).refresher.before after)
      send tokens : Run (Refreshing σ) Nat) { s with refresher := { s.refresher with posted := true } } := by
  unfold dispatch
  rw [Act.bind_of_ok (Act.get_apply s), h]
  rfl

/-- A post comes to what it should between its start and its end. -/
theorem dispatches (scope : Scope) (child : Token) (s : Refreshing σ) :
    ∃ inside, events (dispatch scope child s).2 = s.events ++ inside ∧ Dispatches scope child s (dispatch scope child s).1 inside := by
  cases hposted : s.refresher.posted with
  | true =>
    rw [dispatch_of_posted scope child hposted]
    exact ⟨[], (List.append_nil _).symm, .refused hposted⟩
  | false =>
    rw [dispatch_of_unposted scope child hposted]
    let used : Refreshing σ := { s with refresher := { s.refresher with posted := true } }
    obtain ⟨gathered, es, hl, hplain⟩ := LevelGraph.logged_build scope .both child false s.context
    have hbuilt := hl.1
    rcases hbuild : LevelGraph.build scope .both child false s.context with ⟨error | after, c⟩
    · have hin : inContext (LevelGraph.build scope .both child false) used = (.error error, { used with context := c }) :=
        inContext_of_eq hbuild
      rw [hbuild] at hbuilt
      rw [Act.bind_of_error hin]
      exact ⟨es, hbuilt, .failed hposted hbuild hl hplain⟩
    · have hin : inContext (LevelGraph.build scope .both child false) used = (.ok after, { used with context := c }) :=
        inContext_of_eq hbuild
      obtain ⟨hfound, fs, hf⟩ := Difference.logged_find s.refresher.before after c
      have hfind : inContext (Difference.find s.refresher.before after) { used with context := c } =
          (.ok (Difference.tokens s.refresher.before after), { used with context := (Difference.find s.refresher.before after c).2 }) :=
        inContext_of_eq (Prod.ext hfound rfl)
      obtain ⟨n, s', said, hsend, hout, htold⟩ := send_told (Difference.tokens s.refresher.before after)
        { used with context := (Difference.find s.refresher.before after c).2 }
      rw [hbuild] at hbuilt
      rw [Act.bind_of_ok hin, Act.bind_of_ok (Act.get_apply _), Act.bind_of_ok hfind, hsend]
      refine ⟨es ++ fs ++ said, ?_, .sent hposted hbuild hl hplain hf htold⟩
      calc s'.events
          = (Difference.find s.refresher.before after c).2.events ++ said := hout
        _ = s.events ++ es ++ fs ++ said := by rw [hf.1, show c.events = s.events ++ es from hbuilt]
        _ = s.events ++ (es ++ fs ++ said) := by simp only [List.append_assoc]

/-- What is logged of a post between its start and its end stands aside, up to what is said of the sending. -/
theorem Dispatches.parts (h : Dispatches scope child s x inside) :
    ∃ es said, inside = es ++ said ∧ Aside σ es ∧ ∀ e ∈ said, Told s.refresher.requestId e := by
  cases h with
  | refused => exact ⟨[], [], rfl, aside_of_plain (List.forall_mem_nil _), List.forall_mem_nil _⟩
  | failed _ _ hl hplain =>
    exact ⟨_, [], (List.append_nil _).symm, (Ran.build _ _ _ _ _ hl).aside hplain (by decide), List.forall_mem_nil _⟩
  | sent _ _ hl hplain hf htold =>
    have hbuilt := (Ran.build _ _ _ _ _ hl).aside hplain (by decide)
    have hfound := (Ran.find _ _ _ hf).aside (List.forall_mem_nil _) (by decide)
    exact ⟨_, _, rfl, Act.Joins.append hbuilt hfound, htold⟩

theorem nested_of_told (h : ∀ e ∈ es, Told id e) : Nested σ (some Refresher.op) es := by
  induction es with
  | nil => exact .nil
  | cons e es ih =>
    obtain ⟨⟨hmarks, hop⟩, hes⟩ := List.forall_mem_cons.1 h
    exact .said hmarks (hop.imp_right And.left) (ih hes)

theorem Dispatches.nested (h : Dispatches scope child s x inside) : Nested σ (some Refresher.op) inside := by
  obtain ⟨es, said, rfl, haside, htold⟩ := h.parts
  exact (haside.nested _).append (nested_of_told htold)

theorem Dispatches.signed (h : Dispatches scope child s x inside) : Signed s.refresher.requestId inside := by
  obtain ⟨es, said, rfl, haside, htold⟩ := h.parts
  refine Signed.append (fun e he hop => absurd hop (haside.unposted e he)) fun e he hop => ?_
  rcases (htold e he).2 with hnone | ⟨-, hid⟩
  · exact absurd (hnone.symm.trans hop) (Option.some_ne_none _).symm
  · exact hid

/-- A post is a frame around what it comes to, and whatever it logs in its own name carries the request id. -/
theorem logged_post (scope : Scope) (child : Token) (s : Refreshing σ) :
    ∃ inside es, Logged events Refresher.target Refresher.op (post scope child) s inside es ∧
      Dispatches scope child ⟨s.refresher, begun s.refresher child s.context⟩ (post scope child s).1 inside ∧
      Signed s.refresher.requestId es := by
  let field := Refresher.requestField s.refresher.requestId
  let start := started Refresher.target Refresher.op [field, ("token", .text child.display)]
  obtain ⟨inside, hinside, hdispatches⟩ := dispatches scope child (s.logging start)
  have hpost : post scope child s = Context.loggedBy emit Refresher.target Refresher.op [field, ("token", .text child.display)]
      (fun n => [field, ("refresh_count", .number n)]) [field] (dispatch scope child) s := rfl
  unfold Logged
  rw [hpost]
  refine ⟨inside, _, Context.loggedBy_logged emit_apply events_logging hinside, ?_, ?_⟩
  · rw [Context.loggedBy_apply emit_apply]
    exact hdispatches
  · refine List.forall_mem_cons.2 ⟨fun _ => ?_, hdispatches.signed.append (List.forall_mem_singleton.2 fun _ => ?_)⟩
    · exact .tail _ (.head _)
    · cases (dispatch scope child (s.logging start)).1 with
      | ok n => exact .tail _ (.tail _ (.head _))
      | error error => exact .tail _ (.tail _ (.tail _ (.tail _ (.head _))))

/-- What a post logs is well nested wherever it stands. -/
theorem post_nested (scope : Scope) (child : Token) (s : Refreshing σ) (o : Option String) :
    ∃ es, events (post scope child s).2 = s.events ++ es ∧ Nested σ o es ∧ Signed s.refresher.requestId es := by
  obtain ⟨inside, es, hl, hdispatches, hsigned⟩ := logged_post scope child s
  exact ⟨es, hl.1, (Ran.post scope child s hl).nested hdispatches.nested, hsigned⟩

end Refreshing

namespace Refresher

open Log

variable {σ : Type} [Sources σ]

/-- The making of a refresher is a plain event and the frame of the building of its graph, which ends as the making does. -/
theorem logged_new (scope : Scope) (requestId : String) (console : Bool) (parent : Token) (c : Context σ) :
    ∃ inside es, Logged Context.events LevelGraph.target LevelGraph.buildOp (LevelGraph.build scope .both parent false)
        (c.logging (capturingEvent requestId parent)) inside es ∧ Plain inside ∧
      (new scope requestId console parent c).2.events = c.events ++ capturingEvent requestId parent :: es ∧
      Framed LevelGraph.target LevelGraph.buildOp (new scope requestId console parent c).1 inside es := by
  obtain ⟨inside, es, hl, hplain⟩ :=
    LevelGraph.logged_build scope .both parent false (c.logging (capturingEvent requestId parent))
  have hnew : new scope requestId console parent c = (LevelGraph.build scope .both parent false >>= fun before =>
      pure { before, requestId, console := if console then some [] else none, posted := false })
        (c.logging (capturingEvent requestId parent)) := Act.bind_of_ok (Context.emit_apply _ c)
  rw [hnew]
  obtain ⟨hout, hframed⟩ := hl.map (f := fun before : LevelGraph =>
    ({ before, requestId, console := if console then some [] else none, posted := false } : Refresher))
  refine ⟨inside, es, hl, hplain, hout.trans ?_, hframed⟩
  rw [c.events_logging, List.append_assoc, List.singleton_append]

theorem new_aside (scope : Scope) (requestId : String) (console : Bool) (parent : Token) :
    Act.Writes Context.events (Aside σ) (new scope requestId console parent : Run (Context σ) Refresher) := by
  intro c
  obtain ⟨inside, es, hl, hplain, hout, -⟩ := logged_new scope requestId console parent c
  have hcapturing : Aside σ [capturingEvent requestId parent] := aside_of_plain (List.forall_mem_singleton.2 ⟨rfl, rfl⟩)
  exact ⟨_, hout, Act.Joins.append hcapturing ((Ran.build _ _ _ _ _ hl).aside hplain (by decide))⟩

end Refresher

/-! ## Every operation -/

namespace Log

/-- What the operations log, in whatever state they are called. Each of the four that are logged is a frame, which its result ends; but
the paths from a node that is not there are refused before anything is logged. The others log plain events. -/
structure Framing (σ : Type) [Sources σ] : Prop where
  build (scope : Scope) (search : Search) (root : Token) (onlyOne : Bool) (c : Context σ) : ∃ inside es,
    Logged Context.events LevelGraph.target LevelGraph.buildOp (LevelGraph.build scope search root onlyOne) c inside es ∧ Plain inside
  find (before after : LevelGraph) (c : Context σ) : (Difference.find before after c).1 = .ok (Difference.tokens before after) ∧
    ∃ es, Logged Context.events Difference.target Difference.op (Difference.find before after) c [] es
  paths (limit : Nat) (i : NodeId) (s : Exploring σ) :
    (∃ inside es, Logged Exploring.events PathGraph.target PathGraph.pathsOp (Exploring.allPaths limit i) s inside es ∧ Plain inside) ∨
      ∃ e, s.graph.token i = .error e ∧ Exploring.allPaths limit i s = (.error e, s)
  post (scope : Scope) (child : Token) (s : Refreshing σ) : ∃ inside es,
    Logged Refreshing.events Refresher.target Refresher.op (Refreshing.post scope child) s inside es ∧
      Refreshing.Dispatches scope child ⟨s.refresher, Refreshing.begun s.refresher child s.context⟩
        (Refreshing.post scope child s).1 inside ∧
      Nested σ (some Refresher.op) inside ∧ Refreshing.Signed s.refresher.requestId es
  new (scope : Scope) (requestId : String) (console : Bool) (parent : Token) (c : Context σ) : ∃ inside es,
    Logged Context.events LevelGraph.target LevelGraph.buildOp (LevelGraph.build scope .both parent false)
        (c.logging (Refresher.capturingEvent requestId parent)) inside es ∧ Plain inside ∧
      (Refresher.new scope requestId console parent c).2.events = c.events ++ Refresher.capturingEvent requestId parent :: es ∧
      Framed LevelGraph.target LevelGraph.buildOp (Refresher.new scope requestId console parent c).1 inside es
  expandAll : Act.Writes Growing.events Plain (Growing.expandAll : Run (Growing σ) Unit)
  level (n : Nat) : Act.Writes Growing.events Plain (Growing.level? n : Run (Growing σ) (Option (List NodeId)))
  ask (scope : Scope) (b : Branch) (t : Token) : Act.Writes Context.events Plain (Context.parents scope b t : Run (Context σ) Answer)
  parents (i : NodeId) : Act.Writes Exploring.events Plain (Exploring.parents i : Run (Exploring σ) (List NodeId))

theorem framing {σ : Type} [Sources σ] : Framing σ where
  build := LevelGraph.logged_build
  find := Difference.logged_find
  paths := Exploring.logged_allPaths
  post scope child s := by
    obtain ⟨inside, es, hl, hdispatches, hsigned⟩ := Refreshing.logged_post scope child s
    exact ⟨inside, es, hl, hdispatches, hdispatches.nested, hsigned⟩
  new := Refresher.logged_new
  expandAll := Growing.expandAll_plainly
  level := Growing.level?_plainly
  ask := Context.parents_plainly
  parents := Exploring.parents_plainly

end Log

end Lineage
