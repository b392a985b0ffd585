import Lineage.Proofs.Cache.Kinds
import Lineage.Proofs.Graph.Calls

/-!
# What an expansion asks

An expansion attaches what it is told while it goes on asking, but what it asks is settled when it begins: about each node of the last
level in turn, the questions of the search. So what it does to its context, and whether it fails, is what asking these questions does.
-/

namespace Lineage

namespace Context

variable {σ : Type} [Sources σ]

/-- Asks questions one after the other, up to the first that fails. -/
def askAll : List Question → Run (Context σ) Unit
  | [] => pure ()
  | q :: qs => do
    let _ ← parents q.scope q.branch q.token
    askAll qs

/-- What every question keeps is kept by all of them. -/
theorem keeps_askAll {P : Context σ → Prop} {qs : List Question}
    (h : ∀ q ∈ qs, Act.Keeps P (parents q.scope q.branch q.token : Run (Context σ) Answer)) : Act.Keeps P (askAll qs) := by
  induction qs with
  | nil => exact Act.Keeps.pure ()
  | cons q qs ih => exact (h q List.mem_cons_self).bind fun _ => ih fun q' hq' => h q' (List.mem_cons_of_mem q hq')

end Context

namespace LevelGraph

/-- The questions through the cache that questions about nodes lead to. -/
def about (g : LevelGraph) (qs : List (NodeId × Branch)) : List Context.Question :=
  qs.filterMap fun q => (g.token? q.1).map fun t => ⟨g.scope, q.2, t⟩

/-- What is asked about some nodes when they are expanded. -/
def lookups (g : LevelGraph) (ids : List NodeId) : List Context.Question :=
  (g.tokens ids).flatMap fun t => g.search.branches.map fun b => ⟨g.scope, b, t⟩

/-- The questions of an expansion are about the nodes of the last level. -/
theorem about_questions (g : LevelGraph) : g.about g.questions = g.lookups g.frontier := by
  unfold about lookups questions tokens
  induction g.frontier with
  | nil => rfl
  | cons i ids ih =>
    rw [List.flatMap_cons, List.filterMap_append, ih, List.filterMap_cons, List.filterMap_map]
    cases ht : g.token? i with
    | none => simp [ht]
    | some t => simp [ht]

/-- What is asked about nodes is asked for the scope of the graph. -/
theorem scope_of_mem_lookups {g : LevelGraph} {ids : List NodeId} {q : Context.Question} (h : q ∈ g.lookups ids) :
    q.scope = g.scope := by
  obtain ⟨t, -, hq⟩ := List.mem_flatMap.1 h
  obtain ⟨b, -, rfl⟩ := List.mem_map.1 hq
  rfl

end LevelGraph

namespace Growing

open LevelGraph

variable {σ : Type} [Sources σ] {s : Growing σ} {g : LevelGraph}

/-- One question about a node that is there, and then the others if it was answered. -/
theorem answer_cons {i : NodeId} {t : Token} (ht : s.graph.token? i = some t) (b : Branch) (qs : List (NodeId × Branch)) :
    answer ((i, b) :: qs) s =
      match Context.parents s.graph.scope b t s.context with
      | (.ok a, context) => answer qs ⟨s.graph.attachAll i b (a.getD []), context⟩
      | (.error e, context) => (.error e, ⟨s.graph, context⟩) := by
  rw [answer, Act.bind_of_ok (Act.get_apply s), ht]
  dsimp only
  rw [Act.bind_of_ok (Act.get_apply s)]
  rcases hr : Context.parents s.graph.scope b t s.context with ⟨e | a, context⟩
  · have hasked : inContext (Context.parents s.graph.scope b t) s = (.error e, ⟨s.graph, context⟩) := by
      rw [inContext, Act.on, hr]
    rw [Act.bind_of_error hasked]
  · have hasked : inContext (Context.parents s.graph.scope b t) s = (.ok a, ⟨s.graph, context⟩) := by
      rw [inContext, Act.on, hr]
    rw [Act.bind_of_ok hasked]
    rfl

/-- What questions about the last level do to the context. The nodes that are attached on the way are not asked about. -/
theorem answer_askAll {qs : List (NodeId × Branch)} (hqs : ∀ q ∈ qs, q.1 < g.size ∧ g.levelOf q.1 + 1 = g.levelCount)
    (h : g.Rising s.graph) :
    (answer qs s).1 = (Context.askAll (g.about qs) s.context).1 ∧
      (answer qs s).2.context = (Context.askAll (g.about qs) s.context).2 := by
  induction qs generalizing s with
  | nil => exact ⟨rfl, rfl⟩
  | cons q qs ih =>
    obtain ⟨i, b⟩ := q
    obtain ⟨hi, hl⟩ := hqs (i, b) List.mem_cons_self
    obtain ⟨t, ht⟩ := exists_token?_iff.2 hi
    have habout : g.about ((i, b) :: qs) = ⟨g.scope, b, t⟩ :: g.about qs := by simp [about, ht]
    rw [answer_cons (h.ext.token?_eq ht), habout, Context.askAll, h.ext.scope]
    rcases hr : Context.parents g.scope b t s.context with ⟨e | a, context⟩
    · rw [Act.bind_of_error hr]
      exact ⟨rfl, rfl⟩
    · rw [Act.bind_of_ok hr]
      exact ih (fun q hq => hqs q (List.mem_cons_of_mem _ hq)) (h.attachAll hi hl b (a.getD []))

/-- What an expansion does to the context, unless it is refused, is to ask about the nodes of the last level. -/
theorem expand_askAll (hw : s.graph.WellFormed) (hle : s.graph.levelCount ≤ maxLevel + 1) :
    (expand s).1 = (Context.askAll (s.graph.lookups s.graph.frontier) s.context).1 ∧
      (expand s).2.context = (Context.askAll (s.graph.lookups s.graph.frontier) s.context).2 := by
  have hquestions : s.graph.quiet.about s.graph.questions = s.graph.lookups s.graph.frontier := about_questions s.graph
  have hrising : s.graph.quiet.Rising (⟨s.graph.quiet, s.context⟩ : Growing σ).graph := hw.quiet.toTree.rising
  have hqs : ∀ q ∈ s.graph.questions, q.1 < s.graph.quiet.size ∧ s.graph.quiet.levelOf q.1 + 1 = s.graph.quiet.levelCount :=
    fun q hq => hw.quiet.of_mem_frontier (mem_questions_iff.1 hq).1
  have hanswer := answer_askAll hqs hrising
  rw [hquestions] at hanswer
  have hexpand : expand s = (answer s.graph.questions >>= fun _ => change fun g => g.closeLevel s.graph.size)
      (⟨s.graph.quiet, s.context⟩ : Growing σ) := by
    rw [expand, Act.bind_of_ok (Act.get_apply s), if_neg (by omega)]
    rfl
  rcases hr : answer s.graph.questions (⟨s.graph.quiet, s.context⟩ : Growing σ) with ⟨e | u, s'⟩
  · rw [hexpand, Act.bind_of_error hr, ← hanswer.1, ← hanswer.2, hr]
    exact ⟨rfl, rfl⟩
  · rw [hexpand, Act.bind_of_ok hr, ← hanswer.1, ← hanswer.2, hr]
    exact ⟨rfl, rfl⟩

/-- Whose answers a graph uses and which parents it follows is settled when it is begun. -/
theorem keeps_request_expand (scope : Scope) (search : Search) :
    Act.Keeps (fun s => s.graph.WellFormed ∧ s.graph.scope = scope ∧ s.graph.search = search)
      (expand : Run (Growing σ) Unit) := by
  rintro s ⟨hw, hscope, hsearch⟩
  refine ⟨keeps_wellFormed_expand s hw, ?_⟩
  rcases hr : (expand : Run (Growing σ) Unit) s with ⟨e | u, s'⟩
  · rcases (expand_outcome hw).of_error rfl hr with ⟨-, hg⟩ | hrising
    · exact ⟨hg ▸ hscope, hg ▸ hsearch⟩
    · exact ⟨hrising.ext.scope.trans hscope, hrising.ext.search.trans hsearch⟩
  · obtain ⟨-, g', hrising, hg⟩ := (expand_outcome hw).of_ok rfl hr
    obtain ⟨levels, more, hclose⟩ := g'.exists_closeLevel_eq s.graph.size
    rw [hg, hclose]
    exact ⟨hrising.ext.scope.trans hscope, hrising.ext.search.trans hsearch⟩

/-- What every question of a scope keeps is kept by an expansion of a graph with that scope. -/
theorem keeps_context_expand {scope : Scope} {P : Context σ → Prop}
    (h : ∀ b t, Act.Keeps P (Context.parents scope b t : Run (Context σ) Answer)) (search : Search) :
    Act.Keeps (fun s => (s.graph.WellFormed ∧ s.graph.scope = scope ∧ s.graph.search = search) ∧ P s.context)
      (expand : Run (Growing σ) Unit) := by
  rintro s ⟨hs, hp⟩
  refine ⟨keeps_request_expand scope search s hs, ?_⟩
  by_cases hle : s.graph.levelCount ≤ maxLevel + 1
  · rw [(expand_askAll hs.1 hle).2]
    refine Context.keeps_askAll (fun q hq => ?_) _ hp
    rw [scope_of_mem_lookups hq, hs.2.1]
    exact h q.branch q.token
  · rw [expand_of_deep (Nat.lt_of_not_le hle)]
    exact hp

end Growing

namespace LevelGraph

variable {σ : Type} [Sources σ]

/-- What every question of a scope keeps, whatever is logged, is kept when a graph is built for that scope. -/
theorem keeps_context_build {scope : Scope} {P : Context σ → Prop}
    (h : ∀ b t, Act.Keeps P (Context.parents scope b t : Run (Context σ) Answer)) (hlog : ∀ c log, P c → P { c with log })
    (search : Search) (root : Token) (onlyOne : Bool) :
    Act.Keeps P (build scope search root onlyOne : Run (Context σ) LevelGraph) := by
  have hexpand := Growing.keeps_context_expand h search
  have hkeeps : Act.Keeps (fun s => (s.graph.WellFormed ∧ s.graph.scope = scope ∧ s.graph.search = search) ∧ P s.context)
      (if onlyOne then Growing.expand else Growing.expandAll : Run (Growing σ) Unit) := by
    cases onlyOne
    · exact Growing.keeps_expandAll hexpand
    · exact hexpand
  have hspec : Act.Spec (fun s => s.graph = start scope search root ∧ P s.context)
      (if onlyOne then Growing.expand else Growing.expandAll : Run (Growing σ) Unit) (fun _ s => P s.context)
      fun _ s => P s.context := by
    refine hkeeps.spec.weaken (fun s hs => ?_) (fun _ _ hs => hs.2) fun _ _ hs => hs.2
    rw [hs.1]
    exact ⟨⟨wellFormed_start scope search root, rfl, rfl⟩, hs.2⟩
  have hgrow : Act.Keeps P (grow (start scope search root) onlyOne : Run (Context σ) LevelGraph) :=
    (grow_spec hspec).keeps (fun _ _ hp => hp) fun _ _ hp => hp
  exact Context.keeps_loggedBy hgrow fun e c hc => hlog c _ hc

end LevelGraph
end Lineage
