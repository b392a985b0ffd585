import Lineage.Graph.Growth
import Lineage.Proofs.Cache.Renaming

/-!
# Growing abreast

A level graph may grow in two contexts at once, and under two scopes. All that growing does with its context is to ask, and it asks for
the scope of the graph, so if such questions are answered alike on both sides, every operation ends alike and leaves the same graph but
for the scope (`Abreast`).
-/

namespace Lineage

namespace LevelGraph

variable (scope : Scope) (g : LevelGraph)

/-- A graph with another scope. -/
def under (scope : Scope) (g : LevelGraph) : LevelGraph := { g with scope }

theorem attach_under (child : NodeId) (b : Branch) (t : Token) :
    (g.under scope).attach child b t = (g.attach child b t).under scope := by
  unfold attach
  rw [show (g.under scope).contains t = g.contains t from rfl]
  split <;> rfl

theorem scope_attach (child : NodeId) (b : Branch) (t : Token) : (g.attach child b t).scope = g.scope := by
  unfold attach
  split <;> rfl

theorem attachAll_under (child : NodeId) (b : Branch) (ts : List Token) :
    (g.under scope).attachAll child b ts = (g.attachAll child b ts).under scope := by
  induction ts generalizing g with
  | nil => rfl
  | cons t ts ih =>
    rw [attachAll, List.foldl_cons, attach_under]
    exact ih _

theorem scope_attachAll (child : NodeId) (b : Branch) (ts : List Token) : (g.attachAll child b ts).scope = g.scope := by
  induction ts generalizing g with
  | nil => rfl
  | cons t ts ih => exact (ih _).trans (scope_attach g child b t)

theorem closeLevel_under (first : NodeId) : (g.under scope).closeLevel first = (g.closeLevel first).under scope := by
  unfold closeLevel
  rw [show (g.under scope).size = g.size from rfl]
  split <;> rfl

theorem scope_closeLevel (first : NodeId) : (g.closeLevel first).scope = g.scope := by
  unfold closeLevel
  split <;> rfl

end LevelGraph

namespace Growing

variable {σ τ : Type} {P : Context σ → Context τ → Prop} {scope scope' : Scope}

/-- The same graph grows in contexts that are related, under two scopes. -/
structure Abreast (P : Context σ → Context τ → Prop) (scope scope' : Scope) (s : Growing σ) (s' : Growing τ) : Prop where
  graph : s'.graph = s.graph.under scope'
  scope : s.graph.scope = scope
  context : P s.context s'.context

theorem inContext_abreast {α β : Type} {A : α → β → Prop} {r : Run (Context σ) α} {q : Run (Context τ) β}
    (h : Act.Mirrors P A r q) : Act.Mirrors (Abreast P scope scope') A (inContext r) (inContext q) :=
  h.on (fun _ _ hs => hs.context) fun _ _ _ _ hs hc => ⟨hs.graph, hs.scope, hc⟩

/-- What does not look at the scope changes both graphs alike. -/
theorem change_abreast {f : LevelGraph → LevelGraph} (hunder : ∀ g, f (g.under scope') = (f g).under scope')
    (hscope : ∀ g, (f g).scope = g.scope) :
    Act.Mirrors (Abreast P scope scope') Eq (change f : Run (Growing σ) Unit) (change f) := by
  refine Act.Mirrors.modify fun s s' hs => ⟨?_, (hscope s.graph).trans hs.scope, hs.context⟩
  rw [hs.graph, hunder]

section Asking

variable [Sources σ] [Sources τ]
  (hparents : ∀ b t, Act.Mirrors P Eq (Context.parents scope b t : Run (Context σ) Answer) (Context.parents scope' b t))

include hparents

theorem answer_abreast (qs : List (NodeId × Branch)) :
    Act.Mirrors (Abreast P scope scope') Eq (answer qs : Run (Growing σ) Unit) (answer qs) := by
  induction qs with
  | nil => exact Act.Mirrors.pure rfl
  | cons q qs ih =>
    obtain ⟨i, b⟩ := q
    refine Act.Mirrors.get fun s s' hs => ?_
    rw [show s'.graph.token? i = s.graph.token? i by rw [hs.graph]; rfl]
    cases s.graph.token? i with
    | none => exact ih
    | some t =>
      refine Act.Mirrors.get fun s s' hs => ?_
      rw [hs.scope, show s'.graph.scope = scope' by rw [hs.graph]; rfl]
      refine (inContext_abreast (hparents b t)).bind fun a _ ha => ?_
      subst ha
      exact (change_abreast (fun g => g.attachAll_under scope' i b _) fun g => g.scope_attachAll i b _).bind fun _ _ _ => ih

/-- An expansion finds the same level on both sides, or fails in the same way. -/
theorem expand_abreast : Act.Mirrors (Abreast P scope scope') Eq (expand : Run (Growing σ) Unit) expand := by
  refine Act.Mirrors.get fun s s' hs => ?_
  dsimp only
  rw [hs.graph, show (s.graph.under scope').levelCount = s.graph.levelCount from rfl,
    show (s.graph.under scope').questions = s.graph.questions from rfl, show (s.graph.under scope').size = s.graph.size from rfl]
  split
  · exact Act.Mirrors.fail _
  · refine Act.Mirrors.bind (change_abreast (fun _ => rfl) fun _ => rfl) fun _ _ _ => (answer_abreast hparents _).bind fun _ _ _ => ?_
    exact change_abreast (fun g => g.closeLevel_under scope' _) fun g => g.scope_closeLevel _

theorem expandTimes_abreast (n : Nat) :
    Act.Mirrors (Abreast P scope scope') Eq (expandTimes n : Run (Growing σ) Unit) (expandTimes n) := by
  induction n with
  | zero => exact Act.Mirrors.pure rfl
  | succ n ih =>
    refine Act.Mirrors.get fun s s' hs => ?_
    rw [show s'.graph.more = s.graph.more by rw [hs.graph]; rfl]
    split
    · exact (expand_abreast hparents).bind fun _ _ _ => ih
    · exact Act.Mirrors.pure rfl

theorem expandAll_abreast : Act.Mirrors (Abreast P scope scope') Eq (expandAll : Run (Growing σ) Unit) expandAll :=
  (expand_abreast hparents).bind fun _ _ _ => expandTimes_abreast hparents _

theorem level?_abreast (n : Nat) :
    Act.Mirrors (Abreast P scope scope') Eq (level? n : Run (Growing σ) (Option (List NodeId))) (level? n) := by
  refine Act.Mirrors.get fun s s' hs => ?_
  rw [show s'.graph.levelCount = s.graph.levelCount by rw [hs.graph]; rfl]
  refine (expandTimes_abreast hparents _).bind fun _ _ _ => Act.Mirrors.get fun s s' hs => Act.Mirrors.pure ?_
  rw [hs.graph]
  rfl

end Asking

end Growing

namespace LevelGraph

variable {σ τ : Type} [Sources σ] [Sources τ] {P : Context σ → Context τ → Prop} {scope scope' : Scope}
  (hparents : ∀ b t, Act.Mirrors P Eq (Context.parents scope b t : Run (Context σ) Answer) (Context.parents scope' b t))

include hparents

theorem grow_abreast {g : LevelGraph} (hg : g.scope = scope) (onlyOne : Bool) :
    Act.Mirrors P (fun g g' => g' = g.under scope' ∧ g.scope = scope) (grow g onlyOne : Run (Context σ) LevelGraph)
      (grow (g.under scope') onlyOne) := by
  have hexpand : Act.Mirrors (Growing.Abreast P scope scope') Eq
      (if onlyOne then Growing.expand else Growing.expandAll : Run (Growing σ) Unit)
      (if onlyOne then Growing.expand else Growing.expandAll) := by
    cases onlyOne
    · exact Growing.expandAll_abreast hparents
    · exact Growing.expand_abreast hparents
  intro c c' hc
  obtain ⟨hx, hs⟩ := hexpand ⟨g, c⟩ ⟨g.under scope', c'⟩ ⟨rfl, hg, hc⟩
  unfold grow
  rcases hr : (if onlyOne then Growing.expand else Growing.expandAll : Run (Growing σ) Unit) ⟨g, c⟩ with ⟨x, s⟩
  rcases hq : (if onlyOne then Growing.expand else Growing.expandAll : Run (Growing τ) Unit) ⟨g.under scope', c'⟩ with ⟨y, s'⟩
  rw [hr, hq] at hx hs
  cases hx with
  | ok => exact ⟨.ok ⟨hs.graph, hs.scope⟩, hs.context⟩
  | error e => exact ⟨.error e, hs.context⟩

/-- What is built under both scopes is the same graph but for the scope. -/
theorem build_abreast (hemit : ∀ e, Act.Mirrors P Eq (Context.emit e : Run (Context σ) Unit) (Context.emit e)) (search : Search)
    (root : Token) (onlyOne : Bool) :
    Act.Mirrors P (fun g g' => g' = g.under scope' ∧ g.scope = scope) (build scope search root onlyOne : Run (Context σ) LevelGraph)
      (build scope' search root onlyOne) := by
  refine Context.loggedBy_mirrors (grow_abreast hparents rfl onlyOne) hemit fun g g' hg => ?_
  rw [hg.1]
  rfl

end LevelGraph
end Lineage
