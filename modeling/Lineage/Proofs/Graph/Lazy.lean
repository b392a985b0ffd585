import Lineage.Proofs.Graph.Growth
import Lineage.Proofs.Graph.Survey
import Lineage.Proofs.Sources

/-!
# Lazy graphs

A graph may be begun with its first level only, and be asked for deeper levels later. In a stable context everything that can be done
with it leads from one stage to another: stage `d` is the graph after `d` expansions, which shows the survey of its root up to wave `d`.
So it does not matter in which order the levels were asked for, or how often, and looking for all levels ends where the building of a
complete graph ends.
-/

namespace Lineage

namespace LevelGraph

/-- The graph of a root after a number of expansions in which every question was answered by an ancestry. -/
def stage (f : Ancestry) (scope : Scope) (search : Search) (root : Token) : Nat → LevelGraph
  | 0 => start scope search root
  | d + 1 => (stage f scope search root d).next f

/-- The graphs that a lazy graph can become in stable contexts, with the levels that it was asked for, the last one first. An answer
may have been a failure. -/
inductive Lazily (f : Ancestry) (scope : Scope) (search : Search) (root : Token) : List Nat → LevelGraph → Prop where
  | begun {σ : Type} [Sources σ] {c c' : Context σ} {g : LevelGraph} :
      c.Stable f → build scope search root true c = (.ok g, c') → Lazily f scope search root [] g
  | asked {σ : Type} [Sources σ] {c : Context σ} {ns : List Nat} {g : LevelGraph} (n : Nat) :
      c.Stable f → Lazily f scope search root ns g →
      Lazily f scope search root (n :: ns) (Growing.level? n (⟨g, c⟩ : Growing σ)).2.graph

variable {f : Ancestry} {scope : Scope} {search : Search} {root : Token} {d e k : Nat}

/-! ## Stages -/

variable (f scope search root) in
theorem charted_stage (d : Nat) : (stage f scope search root d).Charted f ∧ (stage f scope search root d).search = search ∧
    (stage f scope search root d).root = root := by
  induction d with
  | zero => exact ⟨charted_start f scope search root, rfl, rfl⟩
  | succ d ih =>
    obtain ⟨hg, hsearch, hroot⟩ := ih
    obtain ⟨hnext, hsearch', hroot', -⟩ := hg.next
    exact ⟨hnext, hsearch'.trans hsearch, hroot'.trans hroot⟩

theorem shows_start : (start scope search root).Shows f := by
  refine (charted_start f scope search root).shows rfl fun k hk => ?_
  obtain rfl : k = 0 := Nat.lt_one_iff.1 hk
  rfl

variable (f scope search root) in
theorem shows_stage (d : Nat) : (stage f scope search root d).Shows f := by
  induction d with
  | zero => exact shows_start
  | succ d ih => exact (ih.next (charted_stage f scope search root d).1).1

variable (f scope search root) in
/-- An expansion of a stage finds a level that was not there, or nothing. -/
theorem stage_succ (d : Nat) :
    (f.wave search root (stage f scope search root d).levelCount ≠ [] ∧ (stage f scope search root (d + 1)).more = true ∧
        (stage f scope search root (d + 1)).levelCount = (stage f scope search root d).levelCount + 1) ∨
      (f.wave search root (stage f scope search root d).levelCount = [] ∧
        stage f scope search root (d + 1) = (stage f scope search root d).quiet) := by
  obtain ⟨hg, hsearch, hroot⟩ := charted_stage f scope search root d
  have hnext := ((shows_stage f scope search root d).next hg).2
  rwa [hsearch, hroot] at hnext

theorem levelCount_stage (h : f.wave search root d ≠ []) : (stage f scope search root d).levelCount = d + 1 := by
  induction d with
  | zero => rfl
  | succ d ih =>
    have hd := ih fun hd => h (Ancestry.wave_eq_nil_of_le hd (Nat.le_succ d))
    rcases stage_succ f scope search root d with ⟨-, -, hcount⟩ | ⟨hwave, -⟩
    · rw [hcount, hd]
    · rw [hd] at hwave
      exact absurd hwave h

theorem more_stage (h : f.wave search root (d + 1) ≠ []) : (stage f scope search root (d + 1)).more = true := by
  have hd : f.wave search root d ≠ [] := fun hd => h (Ancestry.wave_eq_nil_of_le hd (Nat.le_succ d))
  rcases stage_succ f scope search root d with ⟨-, hmore, -⟩ | ⟨hwave, -⟩
  · exact hmore
  · rw [levelCount_stage hd] at hwave
    exact absurd hwave h

variable (scope) in
/-- At a stage whose wave is empty it is known that there are no more waves. -/
theorem stage_exhausted (h : f.wave search root d = []) :
    f.wave search root (stage f scope search root d).levelCount = [] ∧ (stage f scope search root d).more = false := by
  induction d with
  | zero => exact absurd h (List.cons_ne_nil _ _)
  | succ d ih =>
    have hnone : f.wave search root (stage f scope search root d).levelCount = [] := by
      by_cases hd : f.wave search root d = []
      · exact (ih hd).1
      · rw [levelCount_stage hd]
        exact h
    rcases stage_succ f scope search root d with ⟨hwave, -⟩ | ⟨-, heq⟩
    · exact absurd hnone hwave
    · rw [heq]
      exact ⟨hnone, rfl⟩

/-- After an empty wave all stages are the same. -/
theorem stage_eq_of_le (h : f.wave search root d = []) (hde : d ≤ e) :
    stage f scope search root e = stage f scope search root d := by
  induction e, hde using Nat.le_induction with
  | base => rfl
  | succ e hde ih =>
    have he := stage_exhausted scope (Ancestry.wave_eq_nil_of_le h hde)
    rcases stage_succ f scope search root e with ⟨hwave, -⟩ | ⟨-, heq⟩
    · exact absurd he.1 hwave
    · have hquiet : (stage f scope search root e).quiet = stage f scope search root e := by rw [quiet, ← he.2]
      rw [heq, hquiet, ih]

/-- A stage has the waves up to its number that are not empty. -/
theorem lt_levelCount_stage : k < (stage f scope search root d).levelCount ↔ k ≤ d ∧ f.wave search root k ≠ [] := by
  by_cases hd : f.wave search root d = []
  · constructor
    · intro hk
      have hne : f.wave search root k ≠ [] := by
        obtain ⟨hg, hsearch, hroot⟩ := charted_stage f scope search root d
        have hlevel := (shows_stage f scope search root d).levels k hk
        have hids := hg.levelled.nonempty k _ hlevel
        rw [hsearch, hroot, Ne, List.range'_eq_nil_iff] at hids
        exact fun h => hids (List.length_eq_zero_iff.2 h)
      exact ⟨Nat.le_of_not_lt fun hlt => hne (Ancestry.wave_eq_nil_of_le hd (Nat.le_of_lt hlt)), hne⟩
    · rintro ⟨-, hk⟩
      exact Nat.lt_of_not_le fun hle => hk (Ancestry.wave_eq_nil_of_le (stage_exhausted _ hd).1 hle)
  · rw [levelCount_stage hd, Nat.lt_succ_iff]
    exact ⟨fun hk => ⟨hk, fun h => hd (Ancestry.wave_eq_nil_of_le h hk)⟩, fun hk => hk.1⟩

end LevelGraph

namespace Growing

open LevelGraph

variable {σ : Type} [Sources σ] {f : Ancestry} {scope : Scope} {search : Search} {root : Token} {d : Nat}

/-! ## Growing leads from stage to stage -/

variable (σ f scope search root) in
/-- Looking for more levels leads to later stages, as far as the deepest level allows. -/
theorem expandTimes_stage (n : Nat) (hpos : 0 < d) (hd : d ≤ maxLevel + 1) :
    Act.Spec (At f True (stage f scope search root d)) (expandTimes n : Run (Growing σ) Unit)
      (fun _ s => At f True (stage f scope search root (min (d + n) (maxLevel + 1))) s ∧
        (maxLevel + 1 < d + n → f.wave search root (maxLevel + 1) = []))
      (fun e s => e = .tooDeep root.display maxLevel ∧ At f True (stage f scope search root (maxLevel + 1)) s ∧
        maxLevel + 1 < d + n ∧ f.wave search root (maxLevel + 1) ≠ []) := by
  induction n generalizing d with
  | zero =>
    refine Act.Spec.pure fun s hs => ⟨?_, fun h => absurd hd (Nat.not_le.2 h)⟩
    rwa [Nat.add_zero, Nat.min_eq_left hd]
  | succ n ih =>
    refine Act.Spec.get fun s hs => ?_
    by_cases hwave : f.wave search root d = []
    · have hmore : s.graph.more = false := by rw [hs.1, (stage_exhausted _ hwave).2]
      rw [hmore, if_neg Bool.false_ne_true]
      refine Act.Spec.pure fun s' hs' => ?_
      subst hs'
      refine ⟨?_, fun _ => Ancestry.wave_eq_nil_of_le hwave hd⟩
      rwa [stage_eq_of_le hwave (by omega)]
    · obtain ⟨d', rfl⟩ : ∃ d', d = d' + 1 := ⟨d - 1, by omega⟩
      have hmore : s.graph.more = true := by rw [hs.1, more_stage hwave]
      rw [hmore, if_pos rfl]
      refine Act.Spec.of_state (P := At f True (stage f scope search root (d' + 1))) ?_ hs
      refine Act.Spec.bind ((expand_stable _).weaken (fun _ h => h) (fun _ _ h => h) fun e s' hs' => ?_) fun _ =>
        Act.Spec.given fun hle => ?_
      · obtain ⟨he, hcount, hg, hc⟩ := hs'
        rw [levelCount_stage hwave] at hcount
        obtain heq : d' + 1 = maxLevel + 1 := by omega
        rw [(charted_stage f scope search root _).2.2] at he
        rw [heq] at hg hwave
        exact ⟨he, ⟨hg, hc⟩, by omega, hwave⟩
      · rw [levelCount_stage hwave] at hle
        rw [show d' + 1 + (n + 1) = d' + 1 + 1 + n by omega]
        exact ih (d := d' + 1 + 1) (Nat.succ_pos _) hle

variable (σ f scope search root) in
/-- Looking for a level leads to its stage, unless that was passed or is too deep. -/
theorem level?_stage (n : Nat) (hpos : 0 < d) (hd : d ≤ maxLevel + 1) :
    Act.Spec (At f True (stage f scope search root d)) (level? n : Run (Growing σ) (Option (List NodeId)))
      (fun r s => At f True (stage f scope search root (min (max n d) (maxLevel + 1))) s ∧
        (n ≤ maxLevel + 1 ∨ f.wave search root (maxLevel + 1) = []) ∧ (r = none ↔ f.wave search root n = []))
      (fun _ s => At f True (stage f scope search root (min (max n d) (maxLevel + 1))) s ∧
        maxLevel + 1 < n ∧ f.wave search root (maxLevel + 1) ≠ []) := by
  refine Act.Spec.get fun s hs => ?_
  obtain ⟨j, hj⟩ : ∃ j, n + 1 - s.graph.levelCount = j := ⟨_, rfl⟩
  rw [hj]
  rw [hs.1] at hj
  -- the levels that are missing are those of the stages between, unless there are no more levels at all
  have hstage : stage f scope search root (min (d + j) (maxLevel + 1)) =
      stage f scope search root (min (max n d) (maxLevel + 1)) := by
    by_cases hwave : f.wave search root d = []
    · exact (stage_eq_of_le hwave (by omega)).trans (stage_eq_of_le hwave (by omega)).symm
    · rw [levelCount_stage hwave] at hj
      rw [show d + j = max n d by omega]
  have hdeep : f.wave search root (maxLevel + 1) ≠ [] → maxLevel + 1 < d + j → maxLevel + 1 < n := by
    intro hwave hlt
    rw [levelCount_stage fun h => hwave (Ancestry.wave_eq_nil_of_le h hd)] at hj
    omega
  refine Act.Spec.of_state (P := At f True (stage f scope search root d)) ?_ hs
  refine Act.Spec.bind ((expandTimes_stage σ f scope search root j hpos hd).weaken (fun _ h => h) (fun _ _ h => h) fun _ s' hs' => ?_) fun _ =>
    Act.Spec.get fun s' hs' => ?_
  · obtain ⟨-, hs', hlt, hwave⟩ := hs'
    have hn := hdeep hwave hlt
    rw [Nat.min_eq_right (by omega)]
    exact ⟨hs', hn, hwave⟩
  · obtain ⟨⟨hg, hc⟩, hend⟩ := hs'
    rw [hstage] at hg
    refine Act.Spec.pure fun s'' hs'' => ?_
    subst hs''
    have hn : n ≤ maxLevel + 1 ∨ f.wave search root (maxLevel + 1) = [] := by
      by_cases hwave : f.wave search root (maxLevel + 1) = []
      · exact Or.inr hwave
      · rw [levelCount_stage fun h => hwave (Ancestry.wave_eq_nil_of_le h hd)] at hj
        exact Or.inl (Nat.le_of_not_lt fun hlt => hwave (hend (by omega)))
    refine ⟨⟨hg, hc⟩, hn, ?_⟩
    rw [hg, LevelGraph.level?, Array.getElem?_eq_none_iff, ← Nat.not_lt, ← levelCount, lt_levelCount_stage]
    constructor
    · intro hnone
      refine Classical.byContradiction fun hwave => hnone ⟨?_, hwave⟩
      have hle : n ≤ maxLevel + 1 := Nat.le_of_not_lt fun hlt =>
        hwave (Ancestry.wave_eq_nil_of_le (hn.resolve_left (Nat.not_le.2 hlt)) (Nat.le_of_lt hlt))
      omega
    · intro hwave hlt
      exact hlt.2 hwave

variable (σ f scope search root) in
/-- Looking for all levels leads to the last stage that there can be, which has them all unless one is too deep. -/
theorem expandAll_stage (hd : d ≤ maxLevel + 1) :
    Act.Spec (At f True (stage f scope search root d)) (expandAll : Run (Growing σ) Unit)
      (fun _ s => At f True (stage f scope search root (maxLevel + 1)) s ∧ f.wave search root (maxLevel + 1) = [])
      (fun e s => e = .tooDeep root.display maxLevel ∧ At f True (stage f scope search root (maxLevel + 1)) s ∧
        f.wave search root (maxLevel + 1) ≠ []) := by
  refine Act.Spec.bind ((expand_stable _).weaken (fun _ h => h) (fun _ _ h => h) fun e s hs => ?_) fun _ =>
    Act.Spec.given fun hle => ?_
  · obtain ⟨he, hcount, hg⟩ := hs
    obtain ⟨hlt, hwave⟩ := lt_levelCount_stage.1 hcount
    obtain rfl : d = maxLevel + 1 := Nat.le_antisymm hd hlt
    rw [(charted_stage f scope search root _).2.2] at he
    exact ⟨he, hg, hwave⟩
  · have hfirst : stage f scope search root (d + 1) = stage f scope search root (min (d + 1) (maxLevel + 1)) := by
      rcases Nat.lt_or_eq_of_le hd with hlt | rfl
      · rw [Nat.min_eq_left hlt]
      · have hwave : f.wave search root (maxLevel + 1) = [] := Classical.byContradiction fun hwave => by
          rw [levelCount_stage hwave] at hle
          omega
        rw [Nat.min_eq_right (Nat.le_succ _), stage_eq_of_le hwave (Nat.le_succ _)]
    have hrest := expandTimes_stage σ f scope search root (maxLevel + 2)
      (d := min (d + 1) (maxLevel + 1)) (by omega) (Nat.min_le_right _ _)
    rw [← hfirst, Nat.min_eq_right (by omega)] at hrest
    exact hrest.weaken (fun _ h => h) (fun _ _ h => ⟨h.1, h.2 (by omega)⟩) fun _ _ h => ⟨h.1, h.2.1, h.2.2.2⟩

/-- From any stage but the first, a level is answered unless it is too deep, and missing exactly if there is no such wave. -/
theorem level?_ends {c : Context σ} (hc : c.Stable f) (hpos : 0 < d) (hd : d ≤ maxLevel + 1) (scope : Scope) (search : Search)
    (root : Token) (n : Nat) :
    ((∃ r s, level? n (⟨stage f scope search root d, c⟩ : Growing σ) = (.ok r, s)) ↔
        n ≤ maxLevel + 1 ∨ f.wave search root (maxLevel + 1) = []) ∧
      ∀ r s, level? n (⟨stage f scope search root d, c⟩ : Growing σ) = (.ok r, s) → (r = none ↔ f.wave search root n = []) := by
  have hend := level?_stage σ f scope search root n hpos hd
    ⟨stage f scope search root d, c⟩ ⟨rfl, hc⟩
  rcases hr : level? n (⟨stage f scope search root d, c⟩ : Growing σ) with ⟨e | r, s⟩
  · rw [hr] at hend
    obtain ⟨-, hlt, hwave⟩ := hend
    refine ⟨⟨?_, ?_⟩, fun _ _ hok => nomatch hok⟩
    · rintro ⟨r, s, hok⟩
      cases hok
    · rintro (hle | hnil)
      · exact absurd hle (Nat.not_le.2 hlt)
      · exact absurd hnil hwave
  · rw [hr] at hend
    refine ⟨⟨fun _ => hend.2.1, fun _ => ⟨r, s, rfl⟩⟩, fun r' s' hok => ?_⟩
    cases hok
    exact hend.2.2

/-- From any stage, looking for all levels ends at the last stage, or fails because there is a level too deep. -/
theorem expandAll_ends {c : Context σ} (hc : c.Stable f) (hd : d ≤ maxLevel + 1) (scope : Scope) (search : Search)
    (root : Token) :
    (f.wave search root (maxLevel + 1) = [] ∧ ∃ s, expandAll (⟨stage f scope search root d, c⟩ : Growing σ) = (.ok (), s) ∧
      s.graph = stage f scope search root (maxLevel + 1)) ∨
    (f.wave search root (maxLevel + 1) ≠ [] ∧
      ∃ s, expandAll (⟨stage f scope search root d, c⟩ : Growing σ) = (.error (.tooDeep root.display maxLevel), s)) := by
  have hend := expandAll_stage σ f scope search root hd
    ⟨stage f scope search root d, c⟩ ⟨rfl, hc⟩
  rcases hr : expandAll (⟨stage f scope search root d, c⟩ : Growing σ) with ⟨e | u, s⟩
  · rw [hr] at hend
    obtain ⟨rfl, -, hwave⟩ := hend
    exact Or.inr ⟨hwave, s, rfl⟩
  · rw [hr] at hend
    exact Or.inl ⟨hend.2, s, rfl, hend.1.1⟩

end Growing

namespace LevelGraph

variable {σ τ : Type} [Sources σ] [Sources τ] {f : Ancestry} {scope : Scope} {search : Search} {root : Token} {ns : List Nat}
  {g : LevelGraph} {c : Context σ} {c₀ : Context τ}

/-! ## Lazy graphs and complete graphs -/

variable (f scope search root) in
/-- A complete graph is the last stage that there can be. -/
theorem build_stage :
    Act.Spec (Context.Stable f) (build scope search root false : Run (Context σ) LevelGraph)
      (fun g c => (g = stage f scope search root (maxLevel + 1) ∧ f.wave search root (maxLevel + 1) = []) ∧ c.Stable f)
      (fun e c => (e = .tooDeep root.display maxLevel ∧ f.wave search root (maxLevel + 1) ≠ []) ∧ c.Stable f) := by
  refine build_spec_of_grow (grow_spec ((Growing.expandAll_stage σ f scope search root (d := 0) (Nat.zero_le _)).weaken (fun _ h => h)
    (fun _ _ h => ⟨⟨h.1.1, h.2⟩, h.1.2⟩) fun _ _ h => ⟨⟨h.1, h.2.2⟩, h.2.1.2⟩)) (fun _ _ h => h.log _) ?_ ?_
  · exact fun _ _ _ h => ⟨h.1, h.2.log _⟩
  · exact fun _ _ _ h => ⟨h.1, h.2.log _⟩

variable (f scope search root) in
/-- A lazy graph is begun at the first stage, and always. -/
theorem build_lazy :
    Act.Spec (Context.Stable f) (build scope search root true : Run (Context σ) LevelGraph)
      (fun g c => g = stage f scope search root 1 ∧ c.Stable f) fun _ _ => False := by
  refine build_spec_of_grow (grow_spec ((Growing.expand_stable _).weaken (fun _ h => h) (fun _ _ h => h.2) fun _ _ h => ?_))
    (fun _ _ h => h.log _) (fun _ _ _ h => ⟨h.1, h.2.log _⟩) fun _ _ _ h => h
  -- a graph with one level is not too deep
  exact Nat.not_lt_zero _ (Nat.lt_of_succ_lt_succ h.2.1)

theorem le_foldr_max (ns : List Nat) (m : Nat) : m ≤ ns.foldr max m := by
  induction ns with
  | nil => exact Nat.le_refl m
  | cons n ns ih => exact Nat.le_trans ih (Nat.le_max_right n _)

theorem exists_build_lazy (hc : c.Stable f) (scope : Scope) (search : Search) (root : Token) :
    ∃ g c', build scope search root true c = (.ok g, c') := by
  have hb := build_lazy f scope search root c hc
  rcases hr : build scope search root true c with ⟨e | g, c'⟩
  · rw [hr] at hb
    exact hb.elim
  · exact ⟨g, c', rfl⟩

/-- A lazy graph is at the stage of the deepest level that it was asked for, or at the last stage that there can be. -/
theorem Lazily.eq_stage (h : Lazily f scope search root ns g) :
    g = stage f scope search root (min (ns.foldr max 1) (maxLevel + 1)) := by
  induction h with
  | begun hc hb => rw [((build_lazy f scope search root).of_ok hc hb).1]; rfl
  | @asked σ _ c ns g n hc _ ih =>
    have hone := le_foldr_max ns 1
    have hend := Growing.level?_stage σ f scope search root n
      (d := min (ns.foldr max 1) (maxLevel + 1)) (by omega) (Nat.min_le_right _ _) ⟨g, c⟩ ⟨ih, hc⟩
    have hmin : min (max n (min (ns.foldr max 1) (maxLevel + 1))) (maxLevel + 1) =
        min ((n :: ns).foldr max 1) (maxLevel + 1) := by
      rw [List.foldr_cons]
      omega
    rw [hmin] at hend
    rcases hr : Growing.level? n (⟨g, c⟩ : Growing σ) with ⟨e | r, s⟩
    · rw [hr] at hend
      exact hend.1.1
    · rw [hr] at hend
      exact hend.1.1

/-- Lazy and complete graphs agree. In stable contexts a lazy graph can always be begun, and after it was asked for any levels it is the
survey of its root up to the deepest of them, at least up to level 1, unless the survey ends before that or the level is too deep. A
level that is answered at all is missing exactly if the survey has no such wave, and it is answered unless it is too deep. Looking for
all levels of it ends with the graph that building a complete one gives, or fails as that does, and changes nothing in a graph that has
no more levels. A complete graph is the survey with all its waves. -/
theorem lazy_agrees (h : Lazily f scope search root ns g) (hc : c.Stable f) (hc₀ : c₀.Stable f) :
    (∃ g' c', build scope search root true c = (.ok g', c')) ∧
    (g.search = search ∧ g.root = root ∧ g.Shows f ∧
      ∀ k, k < g.levelCount ↔ k ≤ ns.foldr max 1 ∧ k ≤ maxLevel + 1 ∧ f.wave search root k ≠ []) ∧
    (∀ n, ((∃ r s, Growing.level? n (⟨g, c⟩ : Growing σ) = (.ok r, s)) ↔
        n ≤ maxLevel + 1 ∨ f.wave search root (maxLevel + 1) = []) ∧
      ∀ r s, Growing.level? n (⟨g, c⟩ : Growing σ) = (.ok r, s) → (r = none ↔ f.wave search root n = [])) ∧
    (∀ g₀ c', build scope search root false c₀ = (.ok g₀, c') →
      (∃ s, Growing.expandAll (⟨g, c⟩ : Growing σ) = (.ok (), s) ∧ s.graph = g₀) ∧
      (∃ s, Growing.expandAll (⟨g₀, c⟩ : Growing σ) = (.ok (), s) ∧ s.graph = g₀) ∧
      g₀.search = search ∧ g₀.root = root ∧ g₀.Shows f ∧ ∀ k, k < g₀.levelCount ↔ f.wave search root k ≠ []) ∧
    (∀ e c', build scope search root false c₀ = (.error e, c') →
      e = .tooDeep root.display maxLevel ∧ ∃ s, Growing.expandAll (⟨g, c⟩ : Growing σ) = (.error e, s)) ∧
    (g.more = false → ∃ s, Growing.expandAll (⟨g, c⟩ : Growing σ) = (.ok (), s) ∧ s.graph = g) := by
  have hone := le_foldr_max ns 1
  obtain ⟨d, hd⟩ : ∃ d, min (ns.foldr max 1) (maxLevel + 1) = d := ⟨_, rfl⟩
  have hg := h.eq_stage
  rw [hd] at hg
  subst hg
  have hle : d ≤ maxLevel + 1 := by omega
  obtain ⟨-, hsearch, hroot⟩ := charted_stage f scope search root d
  refine ⟨exists_build_lazy hc scope search root, ⟨hsearch, hroot, shows_stage f scope search root d, fun k => ?_⟩,
    Growing.level?_ends hc (by omega) hle scope search root, fun g₀ c' hb => ?_, fun e c' hb => ?_, fun hmore => ?_⟩
  · rw [lt_levelCount_stage, ← hd, Nat.le_min, and_assoc]
  · obtain ⟨⟨hg₀, hnil⟩, -⟩ := (build_stage f scope search root).of_ok hc₀ hb
    rw [hg₀]
    obtain ⟨-, hsearch₀, hroot₀⟩ := charted_stage f scope search root (maxLevel + 1)
    refine ⟨((Growing.expandAll_ends hc hle scope search root).resolve_right fun hdeep => hdeep.1 hnil).2,
      ((Growing.expandAll_ends hc (Nat.le_refl (maxLevel + 1)) scope search root).resolve_right fun hdeep => hdeep.1 hnil).2,
      hsearch₀, hroot₀, shows_stage f scope search root _, fun k => ?_⟩
    rw [lt_levelCount_stage]
    exact ⟨fun hk => hk.2, fun hk =>
      ⟨Nat.le_of_not_lt fun hlt => hk (Ancestry.wave_eq_nil_of_le hnil (Nat.le_of_lt hlt)), hk⟩⟩
  · obtain ⟨⟨rfl, hwave⟩, -⟩ := (build_stage f scope search root).of_error hc₀ hb
    exact ⟨rfl, ((Growing.expandAll_ends hc hle scope search root).resolve_left fun hend => hwave hend.1).2⟩
  · have hwave : f.wave search root d = [] := Classical.byContradiction fun hwave => by
      obtain ⟨d', rfl⟩ : ∃ d', d = d' + 1 := ⟨d - 1, by omega⟩
      rw [more_stage hwave] at hmore
      cases hmore
    obtain ⟨-, s, hs, hlast⟩ := (Growing.expandAll_ends hc hle scope search root).resolve_right fun hdeep =>
      hdeep.1 (Ancestry.wave_eq_nil_of_le hwave hle)
    exact ⟨s, hs, hlast.trans (stage_eq_of_le hwave hle)⟩

/-- Four pages in a row, looked at from the first. Begun lazily and asked for level 2, the graph has three levels. All levels of it are
the four of the complete graph. -/
theorem lazy_agrees_row :
    let a := Token.element "page" "site" "1"
    let b := Token.element "page" "site" "2"
    let c := Token.element "page" "site" "3"
    let d := Token.element "page" "site" "4"
    let l := ((Listing.empty.add a b).add b c).add c d
    let f := Ancestry.ofTables l Hooks.empty
    let x := Context.new (Catalog.ofTables l Hooks.empty) {}
    x.Stable f ∧ ∃ g, Lazily f none .both a [2] g ∧ g.levelCount = 3 ∧
      ∃ g₀ x', build none .both a false x = (.ok g₀, x') ∧ g₀.levelCount = 4 ∧
        ∃ s, Growing.expandAll (⟨g, x⟩ : Growing Catalog) = (.ok (), s) ∧ s.graph = g₀ := by
  intro a b c d l f x
  have hx : x.Stable f := Catalog.stable_ofTables l Hooks.empty {}
  have hlast : f.wave .both a 3 ≠ [] ∧ f.wave .both a 4 = [] := by decide +kernel
  have hsome : ((build none .both a false x).1.toOption.map fun g => g.levelCount) = some 4 := by decide +kernel
  obtain ⟨g₀, x', hb₀, hcount₀⟩ := Act.exists_of_map_eq_some hsome
  obtain ⟨g, x'', hb⟩ := exists_build_lazy hx none .both a
  have hlazy := Lazily.asked 2 hx (Lazily.begun hx hb)
  obtain ⟨-, ⟨-, -, -, hcount⟩, -, hall, -⟩ := lazy_agrees hlazy hx hx
  refine ⟨hx, _, hlazy, ?_, g₀, x', hb₀, hcount₀, (hall g₀ x' hb₀).1⟩
  have htwo := (hcount 2).2 ⟨by decide, by decide, fun h => hlast.1 (Ancestry.wave_eq_nil_of_le h (by decide))⟩
  have hthree := mt (hcount 3).1 fun h => absurd h.1 (by decide)
  omega

end LevelGraph
end Lineage
