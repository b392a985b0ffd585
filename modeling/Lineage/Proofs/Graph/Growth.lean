import Lineage.Proofs.Graph.Calls

/-!
# Growing in a faithful context

Run in a faithful context, an expansion that ends gives the graph `next` of the ancestry, whatever was cached; if the sources never
fail, it fails only below the deepest level. Growing until there is nothing more then ends with a complete graph of at most
`maxLevel + 1` levels, or fails with a graph that has a level more than that.
-/

namespace Lineage

namespace Growing

variable {σ : Type} [Sources σ] {f : Ancestry} {total : Prop}

/-- The graph that grows is `g`, in a faithful context. -/
abbrev At (f : Ancestry) (total : Prop) (g : LevelGraph) (s : Growing σ) : Prop :=
  s.graph = g ∧ s.context.Faithful f total

/-- Asking for parents while a graph grows gives the answer of the ancestry and leaves the graph alone. -/
theorem parents_spec (s : Growing σ) (hs : s.context.Faithful f total) (scope : Scope) (b : Branch) (t : Token) :
    Act.Spec (· = s) (inContext (Context.parents scope b t) : Run (Growing σ) Answer)
      (fun a s' => a = f.onBranch b t.identity ∧ At f total s.graph s')
      (fun _ s' => ¬total ∧ At f total s.graph s') :=
  (Context.parents_spec scope b t).on hs (fun _ _ h => ⟨h.1, rfl, h.2⟩) fun _ _ h => ⟨h.2, rfl, h.1⟩

/-- Questions that are all answered attach the answers of the ancestry. If one of them is not answered, those before it did so. -/
theorem answer_spec (qs : List (NodeId × Branch)) (g : LevelGraph) :
    Act.Spec (At f total g) (answer qs : Run (Growing σ) Unit) (fun _ => At f total (g.answered f qs))
      (fun _ s => ¬total ∧ ∃ pre, pre <+: qs ∧ At f total (g.answered f pre) s) := by
  induction qs generalizing g with
  | nil => exact Act.Spec.pure fun _ h => h
  | cons q qs ih =>
    obtain ⟨i, b⟩ := q
    refine Act.Spec.get fun s hs => ?_
    obtain ⟨rfl, hc⟩ := hs
    -- the rest starts from the graph with this answer
    have hrest : Act.Spec (At f total (s.graph.attachAnswer f (i, b))) (answer qs : Run (Growing σ) Unit)
        (fun _ => At f total (s.graph.answered f ((i, b) :: qs)))
        (fun _ s' => ¬total ∧ ∃ pre, pre <+: (i, b) :: qs ∧ At f total (s.graph.answered f pre) s') :=
      (ih _).weaken (fun _ h => h) (fun _ _ h => h) fun _ _ ⟨ht, pre, hpre, h⟩ =>
        ⟨ht, (i, b) :: pre, (List.prefix_cons_inj _).2 hpre, h⟩
    cases ht : s.graph.token? i with
    | none =>
      rw [LevelGraph.attachAnswer, ht] at hrest
      exact hrest.of_state ⟨rfl, hc⟩
    | some t =>
      rw [LevelGraph.attachAnswer, ht] at hrest
      refine Act.Spec.get fun s' hs' => ?_
      subst hs'
      refine Act.Spec.bind ((parents_spec s' hc _ b t).weaken (fun _ h => h) (fun _ _ h => h) fun _ _ h =>
        ⟨h.1, [], List.nil_prefix, h.2⟩) fun a => Act.Spec.given fun ha => ?_
      subst ha
      refine Act.Spec.bind (R := fun _ => At f total (s'.graph.attachAll i b ((f.onBranch b t.identity).getD [])))
        ?_ fun _ => hrest
      refine Act.Spec.modify fun s'' hs'' => ⟨?_, hs''.2⟩
      rw [hs''.1]

/-- An expansion gives the next graph of the ancestry. It fails below the deepest level, and leaves the graph as it was, or because the
sources do, and leaves the answers that came before. -/
theorem expand_spec (g : LevelGraph) :
    Act.Spec (At f total g) (expand : Run (Growing σ) Unit)
      (fun _ s => g.levelCount ≤ LevelGraph.maxLevel + 1 ∧ At f total (g.next f) s)
      (fun e s =>
        (e = .tooDeep g.root.display LevelGraph.maxLevel ∧ LevelGraph.maxLevel + 1 < g.levelCount ∧ At f total g s) ∨
        (¬total ∧ g.levelCount ≤ LevelGraph.maxLevel + 1 ∧ ∃ pre, pre <+: g.questions ∧
          At f total (g.quiet.answered f pre) s)) := by
  refine Act.Spec.get fun s hs => ?_
  obtain ⟨rfl, hc⟩ := hs
  dsimp only
  split
  · next hdeep =>
    refine Act.Spec.fail fun s' hs' => ?_
    subst hs'
    exact Or.inl ⟨rfl, by omega, rfl, hc⟩
  · next hdeep =>
    refine Act.Spec.bind (R := fun _ => At f total s.graph.quiet) ?_ fun _ => ?_
    · refine Act.Spec.modify fun s' hs' => ?_
      subst hs'
      exact ⟨rfl, hc⟩
    · refine Act.Spec.bind ((answer_spec s.graph.questions s.graph.quiet).weaken (fun _ h => h) (fun _ _ h => h)
        fun _ _ h => Or.inr ⟨h.1, by omega, h.2⟩) fun _ => ?_
      refine Act.Spec.modify fun s' hs' => ⟨by omega, ?_, hs'.2⟩
      rw [hs'.1]
      rfl

/-- An expansion in a stable context gives the next graph, or fails below the deepest level and leaves the graph as it was. -/
theorem expand_stable (g : LevelGraph) :
    Act.Spec (At f True g) (expand : Run (Growing σ) Unit)
      (fun _ s => g.levelCount ≤ LevelGraph.maxLevel + 1 ∧ At f True (g.next f) s)
      (fun e s => e = .tooDeep g.root.display LevelGraph.maxLevel ∧ LevelGraph.maxLevel + 1 < g.levelCount ∧ At f True g s) :=
  (expand_spec g).weaken (fun _ h => h) (fun _ _ h => h) fun _ _ h => h.resolve_right fun h => h.1 trivial

/-! ## Growing keeps contexts faithful -/

/-- What growing knows of its context, whatever graph grows. -/
abbrev Sound (f : Ancestry) (total : Prop) (s : Growing σ) : Prop := s.context.Faithful f total

theorem keeps_expand : Act.Keeps (Sound f total) (expand : Run (Growing σ) Unit) := by
  intro s hs
  rcases hr : (expand : Run (Growing σ) Unit) s with ⟨e | u, s'⟩
  · rcases (expand_spec s.graph).of_error ⟨rfl, hs⟩ hr with ⟨-, -, -, hc⟩ | ⟨-, -, -, -, -, hc⟩
    · exact hc
    · exact hc
  · exact ((expand_spec s.graph).of_ok ⟨rfl, hs⟩ hr).2.2

/-! ## Growing completely -/

/-- How growing ends, of a graph with this search and root: with a complete graph that is not too deep, or, if the sources never fail,
with the failure that is due to a level too deep. -/
def Finishes (f : Ancestry) (total : Prop) (g : LevelGraph) (r : Run (Growing σ) Unit) : Prop :=
  Act.Spec (At f total g) r
    (fun _ s => (s.graph.Complete f ∧ s.graph.levelCount ≤ LevelGraph.maxLevel + 1 ∧ s.graph.search = g.search ∧
      s.graph.root = g.root) ∧ s.context.Faithful f total)
    (fun e s => s.context.Faithful f total ∧ (total → e = .tooDeep g.root.display LevelGraph.maxLevel ∧
      ∃ g' : LevelGraph, g'.Charted f ∧ g'.search = g.search ∧ g'.root = g.root ∧
        LevelGraph.maxLevel + 1 < g'.levelCount))

/-- Growing `g` may go on for `n` levels: a complete graph is not too deep, and a graph with more is at most one level too deep, with
levels enough to come for the failure to be met. -/
def MayGrow (f : Ancestry) (n : Nat) (g : LevelGraph) : Prop :=
  (g.more = false → g.Complete f ∧ g.levelCount ≤ LevelGraph.maxLevel + 1) ∧
    (g.more = true → g.levelCount ≤ LevelGraph.maxLevel + 2 ∧ LevelGraph.maxLevel + 3 ≤ g.levelCount + n)

/-- What follows an expansion that did not fail may go on for one level less. -/
theorem MayGrow.next {g : LevelGraph} {n : Nat} (hg : g.Charted f) (hle : g.levelCount ≤ LevelGraph.maxLevel + 1)
    (hn : LevelGraph.maxLevel + 2 ≤ g.levelCount + n) : MayGrow f n (g.next f) := by
  obtain ⟨-, -, -, hcases⟩ := hg.next
  rcases hcases with ⟨hm, hcount⟩ | ⟨hm, hcount, hcomp⟩
  · refine ⟨fun h => ?_, fun _ => ⟨by omega, by omega⟩⟩
    rw [hm] at h
    cases h
  · refine ⟨fun _ => ⟨hcomp, by omega⟩, fun h => ?_⟩
    rw [hm] at h
    cases h

/-- An expansion before a run that finishes finishes. -/
theorem expand_finishes {r : Run (Growing σ) Unit} (g : LevelGraph) (hg : g.Charted f)
    (hr : g.levelCount ≤ LevelGraph.maxLevel + 1 → Finishes f total (g.next f) r) :
    Finishes f total g (expand >>= fun _ => r) := by
  obtain ⟨-, hsearch, hroot, -⟩ := hg.next
  refine Act.Spec.bind ((expand_spec g).weaken (fun _ h => h) (fun _ _ h => h) fun e s' h => ?_)
    fun _ => Act.Spec.given fun hle => ?_
  · rcases h with ⟨he, hlt, -, hc⟩ | ⟨htotal, -, -, -, -, hc⟩
    · exact ⟨hc, fun _ => ⟨he, g, hg, rfl, rfl, hlt⟩⟩
    · exact ⟨hc, fun ht => absurd ht htotal⟩
  · have hnext := hr hle
    rwa [Finishes, hsearch, hroot] at hnext

/-- Growing while there is more finishes, if it may go on until a level is too deep. -/
theorem expandTimes_finishes (n : Nat) (g : LevelGraph) (hg : g.Charted f) (hmay : MayGrow f n g) :
    Finishes f total g (expandTimes n : Run (Growing σ) Unit) := by
  induction n generalizing g with
  | zero =>
    refine Act.Spec.pure fun s hs => ?_
    obtain ⟨rfl, hc⟩ := hs
    have hm : s.graph.more = false := by
      refine Bool.eq_false_iff.2 fun hm => ?_
      have := hmay.2 hm
      omega
    exact ⟨⟨(hmay.1 hm).1, (hmay.1 hm).2, rfl, rfl⟩, hc⟩
  | succ n ih =>
    refine Act.Spec.get fun s hs => ?_
    obtain ⟨rfl, hc⟩ := hs
    split
    · next hm =>
      have := hmay.2 hm
      have hfin : Finishes f total s.graph (expand >>= fun _ => expandTimes n : Run (Growing σ) Unit) :=
        expand_finishes s.graph hg fun hle => ih _ hg.next.1 (MayGrow.next hg hle (by omega))
      exact Act.Spec.of_state hfin ⟨rfl, hc⟩
    · next hm =>
      refine Act.Spec.pure fun s' hs' => ?_
      subst hs'
      rw [Bool.not_eq_true] at hm
      exact ⟨⟨(hmay.1 hm).1, (hmay.1 hm).2, rfl, rfl⟩, hc⟩

/-- Growing a charted graph that has a level until there is no more finishes. -/
theorem expandAll_finishes (g : LevelGraph) (hg : g.Charted f) (hpos : 0 < g.levelCount) :
    Finishes f total g (expandAll : Run (Growing σ) Unit) :=
  expand_finishes g hg fun hle => expandTimes_finishes _ _ hg.next.1 (MayGrow.next hg hle (by omega))

end Growing

namespace LevelGraph

variable {σ : Type} [Sources σ] {f : Ancestry} {total : Prop}

theorem keeps_grow (g : LevelGraph) (onlyOne : Bool) :
    Act.Keeps (Context.Faithful f total) (grow g onlyOne : Run (Context σ) LevelGraph) := by
  have h : Act.Keeps (Growing.Sound f total)
      (if onlyOne then Growing.expand else Growing.expandAll : Run (Growing σ) Unit) := by
    cases onlyOne
    · exact Growing.keeps_expandAll Growing.keeps_expand
    · exact Growing.keeps_expand
  have hgrow : Act.Spec (Context.Faithful f total) (grow g onlyOne : Run (Context σ) LevelGraph)
      (fun _ c => c.Faithful f total) fun _ c => c.Faithful f total :=
    grow_spec (h.spec.weaken (fun _ hs => hs.2) (fun _ _ h => h) fun _ _ h => h)
  exact hgrow.keeps (fun _ _ h => h) fun _ _ h => h

/-- Building a graph keeps the context faithful. -/
theorem keeps_build (scope : Scope) (search : Search) (root : Token) (onlyOne : Bool) :
    Act.Keeps (Context.Faithful f total) (build scope search root onlyOne : Run (Context σ) LevelGraph) :=
  Context.keeps_loggedBy (keeps_grow _ onlyOne) fun e => Context.keeps_of_gives (Context.emit_spec e)

/-- How the building of a complete graph ends: with a complete graph of the root that is not too deep, or, if the sources never fail,
with the failure that is due to a level too deep. -/
theorem build_spec (scope : Scope) (search : Search) (root : Token) :
    Act.Spec (Context.Faithful f total) (build scope search root false : Run (Context σ) LevelGraph)
      (fun g c => (g.Complete f ∧ g.levelCount ≤ maxLevel + 1 ∧ g.search = search ∧ g.root = root) ∧ c.Faithful f total)
      (fun e c => c.Faithful f total ∧ (total → e = .tooDeep root.display maxLevel ∧
        ∃ g : LevelGraph, g.Charted f ∧ g.search = search ∧ g.root = root ∧ maxLevel + 1 < g.levelCount)) := by
  refine build_spec_of_grow (grow_spec (Growing.expandAll_finishes _ (charted_start f scope search root) Nat.one_pos))
    (fun _ _ h => h.log _) (fun _ _ _ h => ⟨h.1, h.2.log _⟩) fun _ _ _ h => ⟨h.1.log _, h.2⟩

end LevelGraph
end Lineage
