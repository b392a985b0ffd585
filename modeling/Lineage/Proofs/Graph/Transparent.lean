import Lineage.Proofs.Graph.Growth

/-!
# The cache is transparent to graphs

Side by side with a context whose sources may fail and whose cache may lose its answers at any time stands one of the same ancestry
whose sources never fail. Whatever is asked for, built or expanded in the first and does not fail gives the same in the second: the
answers are those of the ancestry in both, and a graph grows to `next` of the ancestry in both.
-/

namespace Lineage

namespace Context

variable {σ τ : Type} [Sources σ] [Sources τ] {f : Ancestry}

/-- Contexts of one ancestry, the first of which may have sources that fail. -/
def Beside (f : Ancestry) (c : Context σ) (c₀ : Context τ) : Prop := c.Faithful f False ∧ c₀.Stable f

/-- What is given in contexts side by side is the same. -/
theorem refines_of_gives {α : Type} {r : Run (Context σ) α} {q : Run (Context τ) α} {a : α} (h : Gives f False r a)
    (h₀ : Gives f True q a) : Act.Refines (Beside f) r q := by
  intro c c₀ hc b c' hb
  obtain ⟨rfl, hc'⟩ := h.of_ok hc.1 hb
  have hs := h₀ c₀ hc.2
  rcases hq : q c₀ with ⟨e | x, c₀'⟩
  · rw [hq] at hs
    exact absurd trivial hs.2
  · rw [hq] at hs
    obtain ⟨rfl, hc₀'⟩ := hs
    exact ⟨c₀', rfl, hc', hc₀'⟩

theorem parents_refines (scope scope₀ : Scope) (b : Branch) (t : Token) :
    Act.Refines (Beside f) (parents scope b t : Run (Context σ) Answer) (parents scope₀ b t : Run (Context τ) Answer) :=
  refines_of_gives (parents_spec scope b t) (parents_spec scope₀ b t)

theorem emit_refines (e e₀ : Log.Event) :
    Act.Refines (Beside f) (emit e : Run (Context σ) Unit) (emit e₀ : Run (Context τ) Unit) :=
  refines_of_gives (emit_spec e) (emit_spec e₀)

/-- Logging does not get in the way of a refinement. -/
theorem loggedBy_refines {s t α : Type} {R : s → t → Prop} {emit : Log.Event → Run s Unit} {emit₀ : Log.Event → Run t Unit}
    {r : Run s α} {q : Run t α} (h : Act.Refines R r q) (hemit : ∀ e e₀, Act.Refines R (emit e) (emit₀ e₀))
    {target op : String} {fields : List (String × Log.Value)} {onSuccess : α → List (String × Log.Value)}
    {onFailure : List (String × Log.Value)} :
    Act.Refines R (loggedBy emit target op fields onSuccess onFailure r)
      (loggedBy emit₀ target op fields onSuccess onFailure q) := by
  refine (hemit _ _).bind fun _ => ?_
  intro st st₀ hR b st' hb
  rcases hr : r st with ⟨e | a, st₁⟩
  · -- the failure is logged and then raised again, so the whole has no value
    have ha : Act.attempt r st = (.ok (.error e), st₁) := by rw [Act.attempt, hr]
    rw [Act.bind_of_ok ha] at hb
    obtain ⟨_, _, -, hfail⟩ := Act.exists_of_bind_eq_ok
      (show (emit (Log.failed target op .elapsed e onFailure) >>= fun _ => Act.fail e) st₁ = (.ok b, st') from hb)
    cases hfail
  · have ha : Act.attempt r st = (.ok (.ok a), st₁) := by rw [Act.attempt, hr]
    obtain ⟨st₀₁, hq, hR₁⟩ := h st st₀ hR a st₁ hr
    have ha₀ : Act.attempt q st₀ = (.ok (.ok a), st₀₁) := by rw [Act.attempt, hq]
    rw [Act.bind_of_ok ha] at hb
    rw [Act.bind_of_ok ha₀]
    exact ((hemit _ _).bind fun _ => Act.Refines.pure a) st₁ st₀₁ hR₁ b st' hb

end Context

namespace Growing

variable {σ τ : Type} [Sources σ] [Sources τ] {f : Ancestry}

/-- The same graph grows in contexts side by side. -/
def Beside (f : Ancestry) (s : Growing σ) (s₀ : Growing τ) : Prop :=
  s.graph = s₀.graph ∧ Context.Beside f s.context s₀.context

/-- An expansion that does not fail gives the next graph of the ancestry on both sides. -/
theorem expand_refines : Act.Refines (Beside f) (expand : Run (Growing σ) Unit) (expand : Run (Growing τ) Unit) := by
  intro s s₀ hs a s' ha
  obtain ⟨hg, hc, hc₀⟩ := hs
  obtain ⟨hle, hg', hc'⟩ := (expand_spec s.graph).of_ok ⟨rfl, hc⟩ ha
  have hspec : Act.Spec (At f True s.graph) (expand : Run (Growing τ) Unit) _ _ := expand_stable s.graph
  have h₀ := hspec s₀ ⟨hg.symm, hc₀⟩
  rcases hr : (expand : Run (Growing τ) Unit) s₀ with ⟨e | u, s₀'⟩
  · rw [hr] at h₀
    have := h₀.2.1
    omega
  · rw [hr] at h₀
    obtain ⟨-, hg₀', hc₀'⟩ := h₀
    exact ⟨s₀', rfl, hg'.trans hg₀'.symm, hc', hc₀'⟩

theorem expandTimes_refines (n : Nat) :
    Act.Refines (Beside f) (expandTimes n : Run (Growing σ) Unit) (expandTimes n : Run (Growing τ) Unit) := by
  induction n with
  | zero => exact Act.Refines.pure ()
  | succ n ih =>
    refine Act.Refines.get fun s s₀ hs => ?_
    rw [hs.1]
    split
    · exact expand_refines.bind fun _ => ih
    · exact Act.Refines.pure ()

theorem expandAll_refines :
    Act.Refines (Beside f) (expandAll : Run (Growing σ) Unit) (expandAll : Run (Growing τ) Unit) :=
  expand_refines.bind fun _ => expandTimes_refines _

theorem level?_refines (n : Nat) :
    Act.Refines (Beside f) (level? n : Run (Growing σ) (Option (List NodeId))) (level? n : Run (Growing τ) _) := by
  refine Act.Refines.get fun s s₀ hs => ?_
  rw [hs.1]
  refine (expandTimes_refines _).bind fun _ => Act.Refines.get fun s' s₀' hs' => ?_
  rw [hs'.1]
  exact Act.Refines.pure _

end Growing

namespace LevelGraph

variable {σ τ : Type} [Sources σ] [Sources τ] {f : Ancestry}

theorem grow_refines (g : LevelGraph) (onlyOne : Bool) :
    Act.Refines (Context.Beside f) (grow g onlyOne : Run (Context σ) LevelGraph)
      (grow g onlyOne : Run (Context τ) LevelGraph) := by
  intro c c₀ hc a c' ha
  have h : Act.Refines (Growing.Beside f) (if onlyOne then Growing.expand else Growing.expandAll : Run (Growing σ) Unit)
      (if onlyOne then Growing.expand else Growing.expandAll : Run (Growing τ) Unit) := by
    cases onlyOne
    · exact Growing.expandAll_refines
    · exact Growing.expand_refines
  unfold grow at ha ⊢
  rcases hr : (if onlyOne then Growing.expand else Growing.expandAll : Run (Growing σ) Unit) ⟨g, c⟩ with ⟨e | u, s⟩
  · rw [hr] at ha
    cases ha
  · rw [hr] at ha
    cases ha
    obtain ⟨s₀, hq, hg, hs⟩ := h ⟨g, c⟩ ⟨g, c₀⟩ ⟨rfl, hc⟩ u s hr
    refine ⟨s₀.context, ?_, hs⟩
    rw [hq, hg]

/-- A graph that is built is the same in contexts side by side. -/
theorem build_refines (scope : Scope) (search : Search) (root : Token) (onlyOne : Bool) :
    Act.Refines (Context.Beside f) (build scope search root onlyOne : Run (Context σ) LevelGraph)
      (build scope search root onlyOne : Run (Context τ) LevelGraph) :=
  Context.loggedBy_refines (grow_refines _ onlyOne) Context.emit_refines

end LevelGraph
end Lineage
