import Lineage.Proofs.Graph.Growth
import Lineage.Proofs.Sources
import Mathlib.Control.Monad.Basic

/-!
# Calls that fail

A call looks for level after level, and a source may fail at any question. The levels that were found before stay. The level that was
looked for is not found, but what was attached on the way to it stays in the graph, in no level, and the graph says that there are no
more levels. So a later call for a level asks nothing, and a later call for all levels misses what was attached already. `failed_call`
says what a failed call leaves, and when a call that is made again ends as if nothing had failed.
-/

namespace Lineage

namespace LevelGraph

/-- A node is on one of the lists of the levels. -/
def Lists (g : LevelGraph) (i : Nat) : Prop := ∃ (k : Nat) (ids : List Nat), g.level? k = some ids ∧ i ∈ ids

/-- A node that no level lists. -/
def Stray (g : LevelGraph) (i : Nat) : Prop := i < g.size ∧ ¬g.Lists i

variable {f : Ancestry} {g g' : LevelGraph} {i : Nat}

theorem lists_congr (h : g'.levels = g.levels) : g'.Lists i ↔ g.Lists i := by simp only [Lists, level?, h]

/-- One more level lists what was listed before, and its own nodes. -/
theorem lists_push {ids : List Nat} (h : g'.levels = g.levels.push ids) : g'.Lists i ↔ g.Lists i ∨ i ∈ ids := by
  constructor
  · rintro ⟨k, ids', hk, hi⟩
    rw [level?, h, Array.getElem?_push] at hk
    split at hk
    · cases hk
      exact Or.inr hi
    · exact Or.inl ⟨k, ids', hk, hi⟩
  · rintro (⟨k, ids', hk, hi⟩ | hi)
    · have hlt : k < g.levels.size := lt_levelCount_of_level? hk
      refine ⟨k, ids', ?_, hi⟩
      rw [level?, h, Array.getElem?_push, if_neg (Nat.ne_of_lt hlt)]
      exact hk
    · refine ⟨g.levels.size, ids, ?_, hi⟩
      rw [level?, h, Array.getElem?_push, if_pos rfl]

/-- Closing a level lists the nodes on the way to it. If there are none, the graph is as it was. -/
theorem Rising.closeLevel_cases (h : Rising g.quiet g') :
    ((g'.closeLevel g.size).more = true ∧ g.size < (g'.closeLevel g.size).size ∧
        (g'.closeLevel g.size).levels = g.levels.push (List.range' g.size ((g'.closeLevel g.size).size - g.size))) ∨
      g'.closeLevel g.size = g.quiet := by
  rcases h.same with rfl | hlt
  · exact Or.inr (closeLevel_of_le (Nat.le_refl _))
  · have hlevels : g'.levels = g.levels := h.ext.levels
    have hclose : g'.closeLevel g.size = _ := closeLevel_of_lt hlt
    rw [hclose, ← hlevels]
    exact Or.inl ⟨rfl, hlt, rfl⟩

theorem size_closeLevel (g : LevelGraph) (n : Nat) : (g.closeLevel n).size = g.size := by
  obtain ⟨levels, more, hclose⟩ := g.exists_closeLevel_eq n
  rw [hclose]
  rfl

end LevelGraph

namespace Growing

open LevelGraph

variable {σ τ : Type} [Sources σ] [Sources τ] {f : Ancestry} {s s' s₁ : Growing σ} {g : LevelGraph} {c : Context σ} {c₀ : Context τ}
  {e : Error} {u : Unit} {i k m n : Nat}

/-- Two ends with the same result and the same graph. -/
def Alike {α : Type} (x : Except Error α × Growing σ) (y : Except Error α × Growing τ) : Prop :=
  x.1 = y.1 ∧ x.2.graph = y.2.graph

/-- A number of expansions that ended, each of which found a level. -/
inductive Pursues : Nat → Growing σ → Growing σ → Prop where
  | refl (s : Growing σ) : Pursues 0 s s
  | step {k : Nat} {s s' s'' : Growing σ} :
      expand s = (.ok (), s') → s'.graph.more = true → Pursues k s' s'' → Pursues (k + 1) s s''

/-- One expansion, and then more while there are more levels. -/
def pursue (m : Nat) : Run (Growing σ) Unit := do
  expand
  expandTimes m

/-! ## One expansion -/

/-- An expansion that ends finds a level, or nothing and then changes nothing. -/
theorem expand_ok_cases (hw : s.graph.WellFormed) (h : expand s = (.ok u, s')) :
    s'.graph.WellFormed ∧ s.graph.levelCount ≤ maxLevel + 1 ∧
      ((s'.graph.more = true ∧ s.graph.size < s'.graph.size ∧
          s'.graph.levels = s.graph.levels.push (List.range' s.graph.size (s'.graph.size - s.graph.size))) ∨
        s'.graph = s.graph.quiet) := by
  obtain ⟨hle, g', hrising, hg⟩ := (expand_outcome hw).of_ok rfl h
  refine ⟨?_, hle, ?_⟩
  · have hkept := keeps_wellFormed_expand s hw
    rwa [h] at hkept
  · rw [hg]
    exact hrising.closeLevel_cases

/-- Whether a node that is there is listed does not change, whatever an expansion meets: a new level lists new nodes only. -/
theorem keeps_lists (i : Nat) (p : Prop) :
    Act.Keeps (fun s => s.graph.WellFormed ∧ i < s.graph.size ∧ (s.graph.Lists i ↔ p)) (expand : Run (Growing σ) Unit) := by
  rintro s ⟨hw, hi, hp⟩
  refine ⟨keeps_wellFormed_expand s hw, ?_⟩
  rcases hr : (expand : Run (Growing σ) Unit) s with ⟨e | u, s'⟩
  · rcases (expand_outcome hw).of_error rfl hr with ⟨-, hg⟩ | hrising
    · rw [hg]
      exact ⟨hi, hp⟩
    · exact ⟨Nat.lt_of_lt_of_le hi hrising.ext.size, (lists_congr hrising.ext.levels).trans hp⟩
  · obtain ⟨-, -, ⟨-, hlt, hlevels⟩ | hg⟩ := expand_ok_cases hw hr
    · have hnew : i ∉ List.range' s.graph.size (s'.graph.size - s.graph.size) := fun hmem =>
        absurd hi (Nat.not_lt.2 (List.mem_range'_1.1 hmem).1)
      exact ⟨Nat.lt_trans hi hlt, (lists_push hlevels).trans ((or_iff_left hnew).trans hp)⟩
    · rw [hg]
      exact ⟨hi, hp⟩

/-- In a stable context an expansion that is not too deep gives the next graph. -/
theorem exists_expand (hc : c.Stable f) (hle : g.levelCount ≤ maxLevel + 1) :
    ∃ c' : Context σ, c'.Stable f ∧ expand (⟨g, c⟩ : Growing σ) = (.ok (), ⟨g.next f, c'⟩) := by
  have hend := expand_stable g (⟨g, c⟩ : Growing σ) ⟨rfl, hc⟩
  rcases hr : expand (⟨g, c⟩ : Growing σ) with ⟨e | u, ⟨g', c'⟩⟩
  · rw [hr] at hend
    exact absurd hend.2.1 (Nat.not_lt.2 hle)
  · rw [hr] at hend
    obtain ⟨-, hg, hc'⟩ := hend
    cases hg
    exact ⟨c', hc', rfl⟩

/-! ## Runs of expansions -/

theorem expandTimes_of_not_more (h : s.graph.more = false) (n : Nat) : expandTimes n s = (.ok (), s) := by
  cases n with
  | zero => rfl
  | succ n =>
    rw [expandTimes, Act.bind_of_ok (Act.get_apply s), h]
    rfl

theorem expandTimes_of_more (h : s.graph.more = true) (n : Nat) : expandTimes (n + 1) s = pursue n s := by
  rw [expandTimes, Act.bind_of_ok (Act.get_apply s), h]
  rfl

/-- Each level that was found on the way is one more. -/
theorem Pursues.levelCount_eq (h : Pursues k s s₁) (hw : s.graph.WellFormed) :
    s₁.graph.WellFormed ∧ s₁.graph.levelCount = s.graph.levelCount + k := by
  induction h with
  | refl s => exact ⟨hw, rfl⟩
  | step hs hmore _ ih =>
    obtain ⟨hw', -, ⟨-, -, hlevels⟩ | hg⟩ := expand_ok_cases hw hs
    · obtain ⟨hw₁, hcount⟩ := ih hw'
      refine ⟨hw₁, ?_⟩
      rw [hcount, levelCount, hlevels, Array.size_push, levelCount]
      omega
    · rw [hg] at hmore
      cases hmore

/-- Looking for more levels fails where one expansion fails. -/
theorem pursues_of_error (h : pursue m s = (.error e, s')) : ∃ k s₁, k ≤ m ∧ Pursues k s s₁ ∧ expand s₁ = (.error e, s') := by
  induction m generalizing s with
  | zero =>
    rcases hr : (expand : Run (Growing σ) Unit) s with ⟨e' | u, s₁⟩
    · rw [pursue, Act.bind_of_error hr] at h
      cases h
      exact ⟨0, s, Nat.le_refl 0, .refl s, hr⟩
    · rw [pursue, Act.bind_of_ok hr] at h
      cases h
  | succ m ih =>
    rcases hr : (expand : Run (Growing σ) Unit) s with ⟨e' | u, s₁⟩
    · rw [pursue, Act.bind_of_error hr] at h
      cases h
      exact ⟨0, s, Nat.zero_le _, .refl s, hr⟩
    · rw [pursue, Act.bind_of_ok hr] at h
      by_cases hmore : s₁.graph.more = true
      · rw [expandTimes_of_more hmore] at h
        obtain ⟨k, s₂, hk, hp, hs⟩ := ih h
        exact ⟨k + 1, s₂, Nat.succ_le_succ hk, .step hr hmore hp, hs⟩
      · rw [expandTimes_of_not_more (Bool.eq_false_iff.2 hmore)] at h
        cases h

theorem Pursues.faithful (h : Pursues k s s₁) (hc : s.context.Faithful f False) : s₁.context.Faithful f False := by
  induction h with
  | refl s => exact hc
  | step hs _ _ ih => exact ih ((expand_spec _).of_ok ⟨rfl, hc⟩ hs).2.2

/-- What is pursued in a faithful context is passed in a stable one, where nothing fails. -/
theorem Pursues.pursue_stable (h : Pursues k s s₁) (hw : s.graph.WellFormed) (hc : s.context.Faithful f False) (hk : k ≤ m)
    (hle : s₁.graph.levelCount ≤ maxLevel + 1) (hc₀ : c₀.Stable f) :
    ∃ c' : Context τ, c'.Stable f ∧
      pursue m (⟨s.graph, c₀⟩ : Growing τ) = expandTimes (m - k) (⟨s₁.graph.next f, c'⟩ : Growing τ) := by
  induction h generalizing m c₀ with
  | refl s =>
    obtain ⟨c', hc', hs⟩ := exists_expand hc₀ hle
    exact ⟨c', hc', Act.bind_of_ok hs⟩
  | step hs hmore hp ih =>
    obtain ⟨m, rfl⟩ : ∃ m', m = m' + 1 := ⟨m - 1, by omega⟩
    obtain ⟨hw', hle', -⟩ := expand_ok_cases hw hs
    obtain ⟨-, hg, hc'⟩ := (expand_spec _).of_ok ⟨rfl, hc⟩ hs
    obtain ⟨c', hc₀', hs₀⟩ := exists_expand hc₀ hle'
    obtain ⟨c'', hc₀'', hrest⟩ := ih hw' hc' (Nat.le_of_succ_le_succ hk) hle hc₀'
    refine ⟨c'', hc₀'', ?_⟩
    rw [Nat.succ_sub_succ, ← hrest, pursue, Act.bind_of_ok hs₀, ← hg]
    exact expandTimes_of_more (s := ⟨_, c'⟩) hmore m

/-- Growing a graph to its end in stable contexts ends alike, as long as it may go on for levels enough. -/
theorem expandTimes_alike (hw : g.WellFormed) (hc : c.Stable f) (hc₀ : c₀.Stable f) (hcount : g.levelCount ≤ maxLevel + 2)
    (hm : g.more = true → maxLevel + 3 ≤ g.levelCount + m) (hn : g.more = true → maxLevel + 3 ≤ g.levelCount + n) :
    Alike (expandTimes m (⟨g, c⟩ : Growing σ)) (expandTimes n (⟨g, c₀⟩ : Growing τ)) := by
  induction m generalizing g n c c₀ with
  | zero =>
    -- with a level too deep still to come the budget cannot be used up
    have hmore : g.more = false := Bool.eq_false_iff.2 fun hmore => by
      have := hm hmore
      omega
    rw [expandTimes_of_not_more (s := ⟨g, c₀⟩) hmore]
    exact ⟨rfl, rfl⟩
  | succ m ih =>
    by_cases hmore : g.more = true
    · have := hn hmore
      obtain ⟨n, rfl⟩ : ∃ n', n = n' + 1 := ⟨n - 1, by omega⟩
      rw [expandTimes_of_more (s := ⟨g, c⟩) hmore, expandTimes_of_more (s := ⟨g, c₀⟩) hmore, pursue, pursue]
      by_cases hle : g.levelCount ≤ maxLevel + 1
      · obtain ⟨c', hc', hs⟩ := exists_expand hc hle
        obtain ⟨c₀', hc₀', hs₀⟩ := exists_expand hc₀ hle
        rw [Act.bind_of_ok hs, Act.bind_of_ok hs₀]
        obtain ⟨hw', -, ⟨-, -, hlevels⟩ | hg⟩ := expand_ok_cases (s := ⟨g, c⟩) hw hs
        · have hcount' : (g.next f).levelCount = g.levelCount + 1 := by
            rw [levelCount, hlevels, Array.size_push]
            rfl
          have := hm hmore
          exact ih hw' hc' hc₀' (by omega) (fun _ => by omega) fun _ => by omega
        · have hend : (g.next f).more = false := congrArg LevelGraph.more hg
          rw [expandTimes_of_not_more (s := ⟨g.next f, c'⟩) hend, expandTimes_of_not_more (s := ⟨g.next f, c₀'⟩) hend]
          exact ⟨rfl, rfl⟩
      · have hs := expand_of_deep (s := ⟨g, c⟩) (Nat.lt_of_not_le hle)
        have hs₀ := expand_of_deep (s := ⟨g, c₀⟩) (Nat.lt_of_not_le hle)
        rw [Act.bind_of_error hs, Act.bind_of_error hs₀]
        exact ⟨rfl, rfl⟩
    · rw [Bool.not_eq_true] at hmore
      rw [expandTimes_of_not_more (s := ⟨g, c⟩) hmore, expandTimes_of_not_more (s := ⟨g, c₀⟩) hmore]
      exact ⟨rfl, rfl⟩

/-! ## Calls -/

/-- Whether a call of a graph looks for a level at all. -/
def Call.Starts : Call → LevelGraph → Prop
  | .level n, g => g.more = true ∧ g.levelCount ≤ n
  | .all, _ => True

/-- How many more levels a call may look for after the first one. -/
def Call.budget : Call → LevelGraph → Nat
  | .level n, g => n - g.levelCount
  | .all, _ => maxLevel + 2

/-- What a call answers once its graph has grown. -/
def Call.answer : Call → LevelGraph → Option (List NodeId)
  | .level n, g => g.level? n
  | .all, _ => none

/-- How a call ends when its graph has grown, or failed to. -/
def Call.finish (call : Call) (x : Except Error Unit × Growing σ) : Except Error (Option (List NodeId)) × Growing σ :=
  (x.1.map fun _ => call.answer x.2.graph, x.2)

/-- A call that looks for a level pursues it, and answers from what the graph then is. -/
theorem Call.run_of_starts {call : Call} (h : call.Starts s.graph) :
    call.run s = call.finish (pursue (call.budget s.graph) s) := by
  have hrun : call.run s = (do
      pursue (call.budget s.graph)
      pure (call.answer (← Act.get).graph)) s := by
    cases call with
    | level n =>
      obtain ⟨hmore, hle⟩ := h
      have hn : n + 1 - s.graph.levelCount = n - s.graph.levelCount + 1 := by omega
      rw [Call.run, Growing.level?, Act.bind_of_ok (Act.get_apply s), hn, Act.bind_apply, expandTimes_of_more hmore]
      rfl
    | all => rfl
  rw [hrun]
  rcases hr : pursue (call.budget s.graph) s with ⟨e | u, s'⟩
  · rw [Act.bind_of_error hr]
    rfl
  · rw [Act.bind_of_ok hr]
    rfl

theorem Call.not_starts_level (h : g.more = false) : ¬(Call.level n).Starts g := fun hs => nomatch h.symm.trans hs.1

/-- A call that does not look for a level answers from what the graph is, and leaves it so. -/
theorem Call.run_of_not_starts {call : Call} (h : ¬call.Starts s.graph) : call.run s = (.ok (call.answer s.graph), s) := by
  cases call with
  | level n =>
    rw [Call.run, Growing.level?, Act.bind_of_ok (Act.get_apply s)]
    by_cases hmore : s.graph.more = true
    · have hn : n + 1 - s.graph.levelCount = 0 := by
        have := mt (And.intro hmore) h
        omega
      rw [hn]
      rfl
    · rw [Act.bind_of_ok (expandTimes_of_not_more (Bool.eq_false_iff.2 hmore) _)]
      rfl
  | all => exact absurd trivial h

/-- A call fails where it pursues a level. -/
theorem Call.starts_of_error {call : Call} {s' : Growing σ} (h : call.run s = (.error e, s')) :
    call.Starts s.graph ∧ pursue (call.budget s.graph) s = (.error e, s') := by
  by_cases hstarts : call.Starts s.graph
  · refine ⟨hstarts, ?_⟩
    rw [Call.run_of_starts hstarts] at h
    rcases hr : pursue (call.budget s.graph) s with ⟨e' | u, s₁⟩
    · rw [hr] at h
      cases h
      rfl
    · rw [hr] at h
      cases h
  · rw [Call.run_of_not_starts hstarts] at h
    cases h

omit [Sources σ] [Sources τ] in
theorem Alike.call {call : Call} {x : Except Error Unit × Growing σ} {y : Except Error Unit × Growing τ} (h : Alike x y) :
    Alike (call.finish x) (call.finish y) := by
  obtain ⟨hresult, hgraph⟩ := h
  exact ⟨by rw [Call.finish, Call.finish, hresult, hgraph], hgraph⟩

end Growing

namespace LevelGraph

open Growing

variable {σ τ υ : Type} [Sources σ] [Sources τ] [Sources υ] {f : Ancestry} {g : LevelGraph} {c : Context σ}

/-- The next graph of a well-formed one has a level more, which lists its first new node, or nothing has changed. -/
theorem WellFormed.next_cases (h : g.WellFormed) (hle : g.levelCount ≤ maxLevel + 1) (f : Ancestry) :
    (g.next f).WellFormed ∧
      (((g.next f).more = true ∧ (g.next f).levelCount = g.levelCount + 1 ∧ (g.next f).Lists g.size) ∨ g.next f = g.quiet) := by
  obtain ⟨c', -, hs⟩ := exists_expand (Context.stable_ideal f) hle
  obtain ⟨hw, -, ⟨hmore, hlt, hlevels⟩ | hg⟩ := expand_ok_cases h hs
  · refine ⟨hw, Or.inl ⟨hmore, ?_, (lists_push hlevels).2 (Or.inr ?_)⟩⟩
    · rw [levelCount, hlevels, Array.size_push]
      rfl
    · have hsize : g.size < (g.next f).size := hlt
      exact List.mem_range'_1.2 ⟨Nat.le_refl _, by show g.size < g.size + ((g.next f).size - g.size); omega⟩
  · exact ⟨hw, Or.inr hg⟩

/-- What some of the questions of an expansion attach is not more than what all of them do. -/
theorem size_answered_le_next {pre : List (NodeId × Branch)} (h : pre <+: g.questions) :
    (g.quiet.answered f pre).size ≤ (g.next f).size := by
  obtain ⟨rest, hrest⟩ := h
  have hall : (g.next f).size = ((g.quiet.answered f pre).answered f rest).size := by
    rw [next, size_closeLevel, show g.quiet.questions = pre ++ rest from hrest.symm, answered, List.foldl_append]
    rfl
  rw [hall]
  rcases answered_eq_or_lt f (g.quiet.answered f pre) rest with heq | hlt
  · exact Nat.le_of_eq (congrArg size heq).symm
  · exact Nat.le_of_lt hlt

/-- `g'` is left by an expansion of `g` that failed, whose answers were those of an ancestry. -/
structure Torn (f : Ancestry) (g g' : LevelGraph) : Prop where
  wellFormed : g.WellFormed
  shallow : g.levelCount ≤ maxLevel + 1
  rising : g.quiet.Rising g'
  size_le : g'.size ≤ (g.next f).size

/-- What an expansion leaves when a source of a faithful context fails. -/
theorem torn_of_expand {s s' : Growing σ} {category : Category} {token cause : String} (hw : s.graph.WellFormed)
    (hc : s.context.Faithful f False) (h : expand s = (.error (.sourceFailed category token cause), s')) :
    Torn f s.graph s'.graph := by
  obtain ⟨-, hle, pre, hpre, hg, -⟩ := ((expand_spec _).of_error ⟨rfl, hc⟩ h).resolve_left fun h => nomatch h.1
  have hrising := ((expand_outcome hw).of_error rfl h).resolve_left fun h => nomatch h.1
  refine ⟨hw, hle, hrising, ?_⟩
  rw [hg]
  exact size_answered_le_next hpre

section Torn

variable {g' : LevelGraph} (h : Torn f g g')

include h

/-- The levels are those from before. -/
theorem Torn.not_lists (hi : g.size ≤ i) : ¬g'.Lists i := by
  intro hlists
  obtain ⟨k, ids, hk, hmem⟩ := (lists_congr (g := g) h.rising.ext.levels).1 hlists
  exact absurd (h.wellFormed.listed k ids hk i hmem).1 (Nat.not_lt.2 hi)

/-- Where nothing was attached, nothing was changed. -/
theorem Torn.eq_quiet (hsize : g'.size = g.size) : g' = g.quiet :=
  h.rising.same.resolve_right fun hlt => Nat.lt_irrefl _ (hsize ▸ hlt)

/-- If there is a next level, then the run without the failure lists its first node ever after. -/
theorem Torn.lists_next (hmore : (g.next f).more = true) (c : Context σ) (m : Nat) :
    (expandTimes m (⟨g.next f, c⟩ : Growing σ)).2.graph.Lists g.size := by
  obtain ⟨hw, ⟨-, -, hlists⟩ | hquiet⟩ := h.wellFormed.next_cases h.shallow f
  · have hi : g.size < (g.next f).size := by
      obtain ⟨k, ids, hk, hmem⟩ := hlists
      exact (hw.listed k ids hk _ hmem).1
    have hkept := keeps_expandTimes (keeps_lists g.size True) m ⟨g.next f, c⟩ ⟨hw, hi, iff_true_intro hlists⟩
    exact of_iff_true hkept.2.2
  · rw [hquiet] at hmore
    cases hmore

/-- A call for a level that is made again ends as if nothing had failed exactly if there is no next level. -/
theorem Torn.alike_level_iff (c₀ : Context τ) (c₁ : Context υ) (m n : Nat) :
    Alike ((Call.level n).run (⟨g', c₀⟩ : Growing τ)) ((Call.level n).finish (expandTimes m (⟨g.next f, c₁⟩ : Growing υ))) ↔
      (g.next f).more = false := by
  rw [Call.run_of_not_starts (s := ⟨g', c₀⟩) (Call.not_starts_level h.rising.ext.more)]
  constructor
  · rintro ⟨-, hgraph⟩
    refine Bool.eq_false_iff.2 fun hmore => h.not_lists (Nat.le_refl g.size) ?_
    have hend : g' = (expandTimes m (⟨g.next f, c₁⟩ : Growing υ)).2.graph := hgraph
    rw [hend]
    exact h.lists_next hmore c₁ m
  · intro hmore
    obtain ⟨-, ⟨hmore', -⟩ | hquiet⟩ := h.wellFormed.next_cases h.shallow f
    · rw [hmore] at hmore'
      cases hmore'
    · have hg : g' = g.next f := by
        rw [hquiet]
        refine h.eq_quiet (Nat.le_antisymm ?_ h.rising.ext.size)
        have := h.size_le
        rwa [hquiet] at this
      rw [expandTimes_of_not_more (s := ⟨g.next f, c₁⟩) hmore, hg]
      exact ⟨rfl, rfl⟩

/-- A call for all levels that is made again ends as if nothing had failed exactly if nothing had been attached. -/
theorem Torn.alike_all_iff {c₀ : Context τ} {c₁ : Context υ} (hc₀ : c₀.Stable f) (hc₁ : c₁.Stable f) {m : Nat}
    (hm : maxLevel + 2 ≤ g.levelCount + m) :
    Alike (Call.all.run (⟨g', c₀⟩ : Growing τ)) (Call.all.finish (expandTimes m (⟨g.next f, c₁⟩ : Growing υ))) ↔
      g'.size = g.size := by
  have hstarts : Call.all.Starts g' := trivial
  rw [Call.run_of_starts (s := ⟨g', c₀⟩) hstarts]
  obtain ⟨hw, hcases⟩ := h.wellFormed.next_cases h.shallow f
  constructor
  · rintro ⟨-, hgraph⟩
    refine Classical.byContradiction fun hne => ?_
    have hlt : g.size < g'.size := Nat.lt_of_le_of_ne h.rising.ext.size (Ne.symm hne)
    -- the first node that was attached stays in no level, where it should be in the next one
    have hstray := keeps_expandAll (keeps_lists g.size False) (⟨g', c₀⟩ : Growing τ)
      ⟨h.wellFormed.quiet.of_rising h.rising, hlt, iff_false_intro (h.not_lists (Nat.le_refl _))⟩
    have hmore : (g.next f).more = true := by
      rcases hcases with ⟨hmore, -⟩ | hquiet
      · exact hmore
      · have := h.size_le
        rw [hquiet] at this
        exact absurd hlt (Nat.not_lt.2 this)
    have hend : ((expandAll : Run (Growing τ) Unit) ⟨g', c₀⟩).2.graph = (expandTimes m (⟨g.next f, c₁⟩ : Growing υ)).2.graph :=
      hgraph
    rw [hend] at hstray
    exact hstray.2.2.1 (h.lists_next hmore c₁ m)
  · intro hsize
    rw [h.eq_quiet hsize]
    obtain ⟨c', hc', hs⟩ := exists_expand (g := g.quiet) hc₀ h.shallow
    have hend : pursue (maxLevel + 2) (⟨g.quiet, c₀⟩ : Growing τ) = expandTimes (maxLevel + 2) (⟨g.next f, c'⟩ : Growing τ) :=
      Act.bind_of_ok hs
    refine Alike.call ?_
    show Alike (pursue (maxLevel + 2) (⟨g.quiet, c₀⟩ : Growing τ)) _
    rw [hend]
    have hshallow := h.shallow
    have hleveled := h.wellFormed.leveled
    rcases hcases with ⟨-, hcount, -⟩ | hquiet
    · exact expandTimes_alike hw hc' hc₁ (by omega) (fun _ => by omega) fun _ => by omega
    · have hmore : (g.next f).more = false := congrArg LevelGraph.more hquiet
      rw [expandTimes_of_not_more (s := ⟨g.next f, c'⟩) hmore, expandTimes_of_not_more (s := ⟨g.next f, c₁⟩) hmore]
      exact ⟨rfl, rfl⟩

end Torn

/-- When a failed call can be made up for by making it again. A call for a level is answered without asking anything, so the level
that failed must have been empty. A call for all levels asks about the last level again, so nothing may have been attached. -/
def Recovers (f : Ancestry) (before after : LevelGraph) : Call → Prop
  | .level _ => (before.next f).more = false
  | .all => after.size = before.size

/-- A failed call leaves the levels that it completed, a graph on the way to the next level, and no more levels to look for. -/
theorem failed_call (hg : g.Reachable) {call : Call} {category : Category} {token cause : String} {s : Growing σ}
    (hr : call.run (⟨g, c⟩ : Growing σ) = (.error (.sourceFailed category token cause), s)) :
    ∃ k s₁, Pursues k ⟨g, c⟩ s₁ ∧ expand s₁ = (.error (.sourceFailed category token cause), s) ∧
      s₁.graph.quiet.Extends s.graph ∧ s.graph.more = false ∧
      (∀ i, s₁.graph.size ≤ i → i < s.graph.size → s.graph.levelOf i = s.graph.levelCount ∧ s.graph.Stray i) ∧
      (s.graph = s₁.graph.quiet ∨ s₁.graph.size < s.graph.size) ∧
      (∀ (n : Nat) (c₀ : Context τ), Growing.level? n (⟨s.graph, c₀⟩ : Growing τ) = (.ok (s.graph.level? n), ⟨s.graph, c₀⟩)) ∧
      ∀ (f : Ancestry) (c₀ : Context τ) (c₁ : Context υ), c.Faithful f False → c₀.Stable f → c₁.Stable f →
        (Alike (call.run (⟨s.graph, c₀⟩ : Growing τ)) (call.run (⟨g, c₁⟩ : Growing υ)) ↔ Recovers f s₁.graph s.graph call) := by
  have hw := hg.wellFormed
  obtain ⟨hstarts, hpursue⟩ := Call.starts_of_error hr
  obtain ⟨k, s₁, hk, hpursues, hfail⟩ := pursues_of_error hpursue
  obtain ⟨hw₁, hcount⟩ := hpursues.levelCount_eq hw
  have hrising : s₁.graph.quiet.Rising s.graph := ((expand_outcome hw₁).of_error rfl hfail).resolve_left fun h => nomatch h.1
  have hmore : s.graph.more = false := hrising.ext.more
  have hlists : ∀ i, s.graph.Lists i ↔ s₁.graph.Lists i := fun i => lists_congr hrising.ext.levels
  have hold : ∀ i, s₁.graph.Lists i → i < s₁.graph.size := fun i ⟨k, ids, hk, hi⟩ => (hw₁.listed k ids hk i hi).1
  have hstray : ∀ i, s₁.graph.size ≤ i → i < s.graph.size → s.graph.Stray i := fun i hi hlt =>
    ⟨hlt, fun h => absurd (hold i ((hlists i).1 h)) (Nat.not_lt.2 hi)⟩
  refine ⟨k, s₁, hpursues, hfail, hrising.ext, hmore, fun i hi hlt => ⟨?_, hstray i hi hlt⟩, hrising.same, fun n c₀ => ?_,
    fun f c₀ c₁ hc hc₀ hc₁ => ?_⟩
  · rw [hrising.fresh i hi hlt, levelCount, levelCount, hrising.ext.levels]
  · exact Call.run_of_not_starts (s := ⟨s.graph, c₀⟩) (Call.not_starts_level hmore)
  · have htorn := torn_of_expand hw₁ (hpursues.faithful hc) hfail
    obtain ⟨c', hc', hrest⟩ := hpursues.pursue_stable hw hc hk htorn.shallow hc₁
    rw [Call.run_of_starts (s := ⟨g, c₁⟩) hstarts, hrest]
    cases call with
    | level n => exact htorn.alike_level_iff c₀ c' _ n
    | all =>
      have hleveled := hw.leveled
      refine htorn.alike_all_iff hc₀ hc' ?_
      rw [hcount]
      show maxLevel + 2 ≤ g.levelCount + k + (maxLevel + 2 - k)
      omega

/-- Three pages in a row, looked at from the first. The expansion of level 1 fails after its first answer. Nothing is missing but a
level, and yet the call that is made again does not find it. -/
theorem failed_call_row :
    let a := Token.element "page" "site" "1"
    let b := Token.element "page" "site" "2"
    let c := Token.element "page" "site" "3"
    let f := Ancestry.ofTables ((Listing.empty.add a b).add b c) Hooks.empty
    let x := Context.new (⟨f, [1], 0⟩ : Faulty) {}
    x.Faithful f False ∧ (Context.ideal f).Stable f ∧ ∃ g s category token cause, g.Reachable ∧
      (Call.level 2).run (⟨g, x⟩ : Growing Faulty) = (.error (.sourceFailed category token cause), s) ∧ s.graph.more = false ∧
      ∃ s₁ : Growing Faulty, expand s₁ = (.error (.sourceFailed category token cause), s) ∧ (s₁.graph.next f).more ≠ false := by
  intro a b c f x
  have hx : x.Faithful f False := Context.faithful_new {} (Faulty.agree _) False.elim
  have hview : ((build none .both a true (Context.ideal f)).1.toOption.map fun g =>
      let call := (Call.level 2).run (⟨g, x⟩ : Growing Faulty)
      decide (call.1 = .error (.sourceFailed .auxiliary b.display "unavailable") ∧
        ((Call.level 2).run (⟨call.2.graph, Context.ideal f⟩ : Growing Ancestry)).1 ≠
          ((Call.level 2).run (⟨g, Context.ideal f⟩ : Growing Ancestry)).1)) = some true := by decide +kernel
  obtain ⟨g, c', hb, hg⟩ := Act.exists_of_map_eq_some hview
  obtain ⟨hcall, hne⟩ := of_decide_eq_true hg
  have hr : (Call.level 2).run (⟨g, x⟩ : Growing Faulty) = (.error (.sourceFailed .auxiliary b.display "unavailable"), _) :=
    Prod.ext hcall rfl
  obtain ⟨k, s₁, -, hfail, -, hmore, -, -, -, halike⟩ := @failed_call Faulty Ancestry Ancestry _ _ _ g x (Reachable.built hb) _ _ _ _ _ hr
  have hiff := halike f _ _ hx (Context.stable_ideal f) (Context.stable_ideal f)
  exact ⟨hx, Context.stable_ideal f, g, _, _, _, _, Reachable.built hb, hr, hmore, s₁, hfail, fun h => hne (hiff.2 h).1⟩

/-- A page with two parents, the first of which has a parent itself. Looked at lazily from the page and asked for level 2, the graph fails
at the second parent. It has the page of level 2 by then, but no such level, and it says that there are no more: asked for level 2 again
when nothing fails, it answers that there is none, although there is one for a graph that never met a failure. -/
theorem failed_call_truncated :
    let a := Token.element "page" "site" "1"
    let b := Token.element "page" "site" "2"
    let x := Token.element "page" "site" "3"
    let d := Token.element "page" "site" "4"
    let sources (faults : List Nat) : Faulty := ⟨Ancestry.ofTables (((Listing.empty.add a b).add a x).add b d) Hooks.empty, faults, 0⟩
    ∃ (g : LevelGraph) (s : Growing Faulty), g.Reachable ∧ g.more = true ∧ g.contains d = false ∧
      (Call.level 2).run (⟨g, Context.new (sources [3]) {}⟩ : Growing Faulty) =
        (.error (.sourceFailed .native x.display "unavailable"), s) ∧
      s.graph.levels = g.levels ∧ s.graph.more = false ∧ s.graph.contains d = true ∧
      ((Call.level 2).run (⟨s.graph, Context.new (sources []) {}⟩ : Growing Faulty)).1 = .ok none ∧
      ((Call.level 2).run (⟨g, Context.new (sources []) {}⟩ : Growing Faulty)).1 = .ok (some [3]) := by
  intro a b x d sources
  have hview : ((build none .both a true (Context.new (sources []) {})).1.toOption.map fun g =>
      let call := (Call.level 2).run (⟨g, Context.new (sources [3]) {}⟩ : Growing Faulty)
      decide (g.more = true ∧ g.contains d = false ∧ call.1 = .error (.sourceFailed .native x.display "unavailable") ∧
        call.2.graph.levels = g.levels ∧ call.2.graph.more = false ∧ call.2.graph.contains d = true ∧
        ((Call.level 2).run (⟨call.2.graph, Context.new (sources []) {}⟩ : Growing Faulty)).1 = .ok none ∧
        ((Call.level 2).run (⟨g, Context.new (sources []) {}⟩ : Growing Faulty)).1 = .ok (some [3]))) = some true := by
    decide +kernel
  obtain ⟨g, c', hb, hg⟩ := Act.exists_of_map_eq_some hview
  obtain ⟨hmore, hnew, hcall, hrest⟩ := of_decide_eq_true hg
  exact ⟨g, _, Reachable.built hb, hmore, hnew, Prod.ext hcall rfl, hrest⟩

end LevelGraph
end Lineage
