import Lineage.Proofs.Graph.WellFormed
import Lineage.Proofs.Sources

/-!
# Calls on a graph, whatever the sources say

A graph that was begun is asked for one of its levels or for all of them, again and again. Nothing is known of the sources here: they
may answer one way and then another, and they may fail at any question. An expansion that ends closes a level, an expansion that fails
stops on the way to one, and in both cases the graph stays well-formed.
-/

namespace Lineage

namespace Growing

variable {σ : Type} [Sources σ]

/-- What can be asked of a graph that was begun: one of its levels, or all of them. -/
inductive Call where
  | level (n : Nat)
  | all
  deriving DecidableEq, Repr

/-- A call, carried out. Looking for all levels has no answer but the graph. -/
def Call.run : Call → Run (Growing σ) (Option (List NodeId))
  | .level n => level? n
  | .all => do
    expandAll
    pure none

/-! ## What every expansion keeps -/

section Keeps

variable {P : Growing σ → Prop} (h : Act.Keeps P (expand : Run (Growing σ) Unit))

include h

theorem keeps_expandTimes (n : Nat) : Act.Keeps P (expandTimes n : Run (Growing σ) Unit) := by
  induction n with
  | zero => exact Act.Keeps.pure ()
  | succ n ih =>
    refine Act.Keeps.get fun s => ?_
    split
    · exact h.bind fun _ => ih
    · exact Act.Keeps.pure ()

theorem keeps_expandAll : Act.Keeps P (expandAll : Run (Growing σ) Unit) := h.bind fun _ => keeps_expandTimes h _

theorem keeps_level? (n : Nat) : Act.Keeps P (level? n : Run (Growing σ) (Option (List NodeId))) :=
  Act.Keeps.get fun _ => (keeps_expandTimes h _).bind fun _ => Act.Keeps.get fun _ => Act.Keeps.pure _

/-- What every expansion keeps is kept by every call. -/
theorem keeps_call (call : Call) : Act.Keeps P (call.run : Run (Growing σ) (Option (List NodeId))) := by
  cases call with
  | level n => exact keeps_level? h n
  | all => exact (keeps_expandAll h).bind fun _ => Act.Keeps.pure none

end Keeps

/-! ## One expansion -/

omit [Sources σ] in
/-- What is done with the context leaves the graph alone. -/
theorem keeps_graph_inContext {α : Type} {P : LevelGraph → Prop} (r : Run (Context σ) α) :
    Act.Keeps (fun s : Growing σ => P s.graph) (inContext r) :=
  Act.Keeps.on (A := fun _ => True) (fun _ _ => trivial) (fun _ _ => trivial) fun _ _ hs _ => hs

/-- Answers to questions about the last level lead on to the next level, whether all of them come or not. -/
theorem keeps_answer {g : LevelGraph} (qs : List (NodeId × Branch))
    (hqs : ∀ q ∈ qs, q.1 < g.size ∧ g.levelOf q.1 + 1 = g.levelCount) :
    Act.Keeps (fun s => g.Rising s.graph) (answer qs : Run (Growing σ) Unit) := by
  induction qs with
  | nil => exact Act.Keeps.pure ()
  | cons q qs ih =>
    obtain ⟨i, b⟩ := q
    obtain ⟨hi, hl⟩ := hqs (i, b) List.mem_cons_self
    have hrest := ih fun q hq => hqs q (List.mem_cons_of_mem _ hq)
    refine Act.Keeps.get fun s => ?_
    cases s.graph.token? i with
    | none => exact hrest
    | some t =>
      refine Act.Keeps.get fun s => (keeps_graph_inContext _).bind fun a => Act.Keeps.bind ?_ fun _ => hrest
      exact fun s hs => hs.attachAll hi hl b (a.getD [])

/-- Below the deepest level nobody is asked and nothing changes. -/
theorem expand_of_deep {s : Growing σ} (h : LevelGraph.maxLevel + 1 < s.graph.levelCount) :
    expand s = (.error (.tooDeep s.graph.root.display LevelGraph.maxLevel), s) := by
  have hdeep : LevelGraph.maxLevel < s.graph.levelCount - 1 := by omega
  rw [expand, Act.bind_of_ok (Act.get_apply s)]
  show (if LevelGraph.maxLevel < s.graph.levelCount - 1 then (Act.fail _ : Run (Growing σ) Unit) else _) s = _
  rw [if_pos hdeep]
  rfl

/-- An expansion of a well-formed graph closes a level. If it fails, nothing has changed because the graph is too deep, or the graph
was left on the way to its next level. -/
theorem expand_outcome {g : LevelGraph} (hg : g.WellFormed) :
    Act.Spec (fun s => s.graph = g) (expand : Run (Growing σ) Unit)
      (fun _ s => g.levelCount ≤ LevelGraph.maxLevel + 1 ∧ ∃ g', g.quiet.Rising g' ∧ s.graph = g'.closeLevel g.size)
      (fun e s => (e = .tooDeep g.root.display LevelGraph.maxLevel ∧ s.graph = g) ∨ g.quiet.Rising s.graph) := by
  refine Act.Spec.get fun s hs => ?_
  subst hs
  dsimp only
  split
  · refine Act.Spec.fail fun s' hs' => Or.inl ⟨rfl, ?_⟩
    rw [hs']
  · next hdeep =>
    have hqs : ∀ q ∈ s.graph.questions, q.1 < s.graph.quiet.size ∧ s.graph.quiet.levelOf q.1 + 1 = s.graph.quiet.levelCount :=
      fun q hq => hg.quiet.of_mem_frontier (LevelGraph.mem_questions_iff.1 hq).1
    refine Act.Spec.bind (R := fun _ s' => s.graph.quiet.Rising s'.graph) (Act.Spec.modify fun s' hs' => ?_) fun _ => ?_
    · rw [hs']
      exact hg.quiet.toTree.rising
    · refine Act.Spec.bind ((keeps_answer _ hqs).spec.weaken (fun _ h => h) (fun _ _ h => h) fun _ _ h => Or.inr h) fun _ => ?_
      exact Act.Spec.modify fun s' hs' => ⟨by omega, s'.graph, hs', rfl⟩

/-- An expansion keeps graphs well-formed, also if it fails. -/
theorem keeps_wellFormed_expand : Act.Keeps (fun s => s.graph.WellFormed) (expand : Run (Growing σ) Unit) := by
  intro s hs
  rcases hr : (expand : Run (Growing σ) Unit) s with ⟨e | u, s'⟩
  · rcases (expand_outcome hs).of_error rfl hr with ⟨-, heq⟩ | hrising
    · rw [heq]
      exact hs
    · exact hs.quiet.of_rising hrising
  · obtain ⟨-, g', hrising, heq⟩ := (expand_outcome hs).of_ok rfl hr
    rw [heq]
    exact hs.quiet.close hrising

end Growing

namespace LevelGraph

variable {σ : Type} [Sources σ] {g : LevelGraph}

/-- How a begun graph ends is how its expansion ends. -/
theorem grow_spec {onlyOne : Bool} {A : Context σ → Prop} {Q : LevelGraph → Context σ → Prop} {E : Error → Context σ → Prop}
    (h : Act.Spec (fun s => s.graph = g ∧ A s.context)
      (if onlyOne then Growing.expand else Growing.expandAll : Run (Growing σ) Unit)
      (fun _ s => Q s.graph s.context) fun e s => E e s.context) :
    Act.Spec A (grow g onlyOne : Run (Context σ) LevelGraph) Q E := by
  intro c hc
  unfold grow
  rcases hr : (if onlyOne then Growing.expand else Growing.expandAll : Run (Growing σ) Unit) ⟨g, c⟩ with ⟨e | u, s⟩
  · exact h.of_error ⟨rfl, hc⟩ hr
  · exact h.of_ok ⟨rfl, hc⟩ hr

/-- How the building of a graph ends is how its expansion ends, if the log does not matter for that. -/
theorem build_spec_of_grow {scope : Scope} {search : Search} {root : Token} {onlyOne : Bool} {A : Context σ → Prop}
    {Q : LevelGraph → Context σ → Prop} {E : Error → Context σ → Prop}
    (h : Act.Spec A (grow (start scope search root) onlyOne : Run (Context σ) LevelGraph) Q E)
    (hA : ∀ (c : Context σ) log, A c → A { c with log }) (hQ : ∀ g (c : Context σ) log, Q g c → Q g { c with log })
    (hE : ∀ e (c : Context σ) log, E e c → E e { c with log }) :
    Act.Spec A (build scope search root onlyOne : Run (Context σ) LevelGraph) Q E :=
  Context.loggedBy_spec h (fun _ => Act.Spec.modify fun c hc => hA c _ hc) (fun g _ => Act.Spec.modify fun c hc => hQ g c _ hc)
    fun e _ => Act.Spec.modify fun c hc => hE e c _ hc

/-- What holds of the root alone and is kept by every expansion holds of a graph that was built. -/
theorem holds_of_build {P : LevelGraph → Prop} {scope : Scope} {search : Search} {root : Token} {onlyOne : Bool} {c c' : Context σ}
    (hstart : P (start scope search root)) (hexpand : Act.Keeps (fun s => P s.graph) (Growing.expand : Run (Growing σ) Unit))
    (h : build scope search root onlyOne c = (.ok g, c')) : P g := by
  have hkeeps : Act.Keeps (fun s => P s.graph) (if onlyOne then Growing.expand else Growing.expandAll : Run (Growing σ) Unit) := by
    cases onlyOne
    · exact Growing.keeps_expandAll hexpand
    · exact hexpand
  have hgrow : Act.Spec (fun _ => True) (grow (start scope search root) onlyOne : Run (Context σ) LevelGraph)
      (fun g _ => P g) fun _ _ => True := by
    refine grow_spec (hkeeps.spec.weaken (fun s hs => ?_) (fun _ _ h => h) fun _ _ _ => trivial)
    rw [hs.1]
    exact hstart
  have hbuild := build_spec_of_grow hgrow (fun _ _ h => h) (fun _ _ _ h => h) fun _ _ _ h => h
  exact hbuild.of_ok trivial h

/-- The graphs that there can be: each was built, and then called any number of times. Every call may meet other sources than the one
before, another cache and another log, and it may have failed. -/
inductive Reachable : LevelGraph → Prop where
  | built {σ : Type} [Sources σ] {c c' : Context σ} {scope : Scope} {search : Search} {root : Token} {onlyOne : Bool}
      {g : LevelGraph} : build scope search root onlyOne c = (.ok g, c') → Reachable g
  | called {σ : Type} [Sources σ] {g : LevelGraph} (c : Context σ) (call : Growing.Call) :
      Reachable g → Reachable (call.run (⟨g, c⟩ : Growing σ)).2.graph

/-- What holds of every root alone, and is kept by every expansion whatever the sources say, holds of every graph that there can be. -/
theorem Reachable.holds {P : LevelGraph → Prop} (hstart : ∀ scope search root, P (start scope search root))
    (hexpand : ∀ {σ : Type} [Sources σ], Act.Keeps (fun s => P s.graph) (Growing.expand : Run (Growing σ) Unit)) (h : g.Reachable) :
    P g := by
  induction h with
  | built hb => exact holds_of_build (hstart _ _ _) hexpand hb
  | called c call _ ih => exact Growing.keeps_call hexpand call ⟨_, c⟩ ih

/-- Every graph that there can be is well-formed. -/
theorem Reachable.wellFormed (h : g.Reachable) : g.WellFormed := h.holds wellFormed_start Growing.keeps_wellFormed_expand

/-- The structure of every graph that there can be. The index and the nodes lead to each other, and no object is named twice. The root
is node 0, on level 0, and the only node without a child. Every other node has a child before it, one level below, that has it once
among its parents, as no other node has. Parents stand in the order of their numbers. There is a level, and what is listed on a level
is on it and is listed nowhere else. No node is on a lower level than a node before it. So going to the child leads from a node on
level `k` to the root in `k` steps and in no other number of steps, there is a top, and the root is the only bottom. -/
theorem shape_of_reachable (h : g.Reachable) :
    (∀ (x : Identity) (i : Nat), g.index.find? x = some i ↔ ∃ t, g.token? i = some t ∧ t.identity = x) ∧
    (∀ (i j : Nat) (t u : Token), g.token? i = some t → g.token? j = some u → t.identity = u.identity → i = j) ∧
    (g.token? 0 = some g.root ∧ g.levelOf 0 = 0 ∧ ∀ i < g.size, g.child? i = none ↔ i = 0) ∧
    (∀ i, 0 < i → i < g.size → ∃ c < i, g.child? i = some c ∧ g.levelOf i = g.levelOf c + 1 ∧
      ∀ d : Nat, (g.parents d).count i = if d = c then 1 else 0) ∧
    (∀ c : Nat, (g.parents c).Pairwise (· < ·) ∧ ∀ p ∈ g.parents c, c < p ∧ p < g.size) ∧
    0 < g.levelCount ∧
    (∀ (k : Nat) (ids : List Nat), g.level? k = some ids → ids ≠ [] ∧ ∀ i ∈ ids, i < g.size ∧ g.levelOf i = k) ∧
    g.levels.toList.flatten.Nodup ∧
    (∀ i j : Nat, i ≤ j → j < g.size → g.levelOf i ≤ g.levelOf j) ∧
    (∀ i < g.size, ∀ n, g.descend n i = some 0 ↔ n = g.levelOf i) ∧
    (∃ i, i ∈ g.tops) ∧ g.bottoms = [0] := by
  have hw := h.wellFormed
  refine ⟨hw.indexed, hw.distinct, ⟨hw.root, hw.ground, fun i hi => hw.child?_eq_none_iff hi⟩, fun i hpos hi => ?_, fun c => ?_,
    hw.leveled, fun k ids hk => ⟨hw.nonempty k ids hk, hw.listed k ids hk⟩, hw.once, hw.ordered,
    fun i hi n => hw.descend_eq_root_iff hi, hw.exists_mem_tops, hw.bottoms_eq⟩
  · obtain ⟨c, hc, hlt, hlevel⟩ := hw.found i hpos hi
    exact ⟨c, hlt, hc, hlevel, hw.count_parents hc⟩
  · refine ⟨hw.increasing c, fun p hp => ?_⟩
    have hchild := (hw.linked c p).1 hp
    exact ⟨hw.lt_of_child? hchild, lt_size_of_child? hchild⟩

/-- Three pages in a row, looked at from the first. The expansion of level 1 fails at its second question, so the third page is in the
graph and on no level, and the structure is that of any graph. -/
theorem shape_of_reachable_torn :
    ∃ g : LevelGraph, g.Reachable ∧ g.size = 3 ∧ g.levels = #[[0], [1]] ∧ g.descend 2 2 = some 0 ∧ g.bottoms = [0] := by
  let a := Token.element "page" "site" "1"
  let b := Token.element "page" "site" "2"
  let c := Token.element "page" "site" "3"
  let sources (faults : List Nat) : Faulty := ⟨Ancestry.ofTables ((Listing.empty.add a b).add b c) Hooks.empty, faults, 0⟩
  have hview : ((build none .both a true (Context.new (sources []) {})).1.toOption.map fun g =>
      let torn := ((Growing.Call.level 2).run (⟨g, Context.new (sources [1]) {}⟩ : Growing Faulty)).2.graph
      (torn.size, torn.levels, torn.levelOf 2)) = some (3, #[[0], [1]], 2) := by decide +kernel
  obtain ⟨g, c', hb, hg⟩ := Act.exists_of_map_eq_some hview
  obtain ⟨hsize, hlevels, hlevel⟩ : _ ∧ _ ∧ _ := by simpa using hg
  have hr : Reachable _ := Reachable.called (Context.new (sources [1]) {}) (.level 2) (Reachable.built hb)
  obtain ⟨-, -, -, -, -, -, -, -, -, hdescend, -, hbottoms⟩ := shape_of_reachable hr
  exact ⟨_, hr, hsize, hlevels, (hdescend 2 (by omega) 2).2 hlevel.symm, hbottoms⟩

end LevelGraph
end Lineage
