import Lineage.Proofs.Graph.Levels
import Mathlib.Data.List.Sort

/-!
# Surveys: the ancestors of a root, wave after wave

Breadth-first search, said without graphs. Wave 0 is the root. Wave `n + 1` is what the finds of wave `n` name, find by find, branch by
branch and in the order of the answers, without what was found before and without repetition. Finds are numbered through all waves. A
graph shows a survey when its nodes are the finds of the waves up to its last level (`Shows`), and one expansion lets it show one wave
more, unless that wave is empty (`Shows.next`).
-/

namespace Lineage

/-- What a survey keeps of something that it found. -/
structure Find where
  token : Token
  level : Nat
  /-- the question whose answer named the token first -/
  branch : Branch
  /-- the number of the find that was asked that question -/
  child : Option Nat
  deriving DecidableEq, Repr

namespace Find

/-- The identities of finds, in order. -/
def identities (ps : List Find) : List Identity := ps.map (·.token.identity)

/-- The first find of every identity that is not known. -/
def fresh (known : List Identity) : List Find → List Find
  | [] => []
  | p :: ps =>
    if p.token.identity ∈ known then fresh known ps else p :: fresh (known ++ [p.token.identity]) ps

theorem identities_append (ps qs : List Find) : identities (ps ++ qs) = identities ps ++ identities qs := List.map_append

/-- What is fresh in the first of two lists is known to the second. -/
theorem fresh_append (known : List Identity) (ps qs : List Find) :
    fresh known (ps ++ qs) = fresh known ps ++ fresh (known ++ identities (fresh known ps)) qs := by
  induction ps generalizing known with
  | nil => simp [fresh, identities]
  | cons p ps ih =>
    simp only [List.cons_append, fresh]
    split
    · exact ih known
    · rw [ih, List.cons_append, identities, identities, List.map_cons, List.append_assoc, List.singleton_append]

/-- Nothing is fresh that was not there. -/
theorem mem_of_mem_fresh {known : List Identity} {p : Find} {ps : List Find} (h : p ∈ fresh known ps) : p ∈ ps := by
  induction ps generalizing known with
  | nil => exact h
  | cons q ps ih =>
    rw [fresh] at h
    split at h
    · exact List.mem_cons_of_mem q (ih h)
    · rcases List.mem_cons.1 h with rfl | h
      · exact List.mem_cons_self
      · exact List.mem_cons_of_mem q (ih h)

end Find

namespace Ancestry

/-- What finds name, as finds on the next level. The finds are numbered from `first`. -/
def named (f : Ancestry) (search : Search) (level first : Nat) (ps : List Find) : List Find :=
  (ps.zipIdx first).flatMap fun (p, i) => search.branches.flatMap fun b =>
    ((f.onBranch b p.token.identity).getD []).map fun t => ⟨t, level, b, some i⟩

/-- The finds of the waves before wave `n`, and those of wave `n`. -/
def survey (f : Ancestry) (search : Search) (root : Token) : Nat → List Find × List Find
  | 0 => ([], [⟨root, 0, .native, none⟩])
  | n + 1 =>
    match survey f search root n with
    | (below, wave) =>
      (below ++ wave, Find.fresh (Find.identities (below ++ wave)) (f.named search (n + 1) below.length wave))

/-- The finds of the waves before a wave. -/
def below (f : Ancestry) (search : Search) (root : Token) (n : Nat) : List Find := (f.survey search root n).1

/-- The finds of a wave. -/
def wave (f : Ancestry) (search : Search) (root : Token) (n : Nat) : List Find := (f.survey search root n).2

/-- The finds before wave `n` that a find named first, by their numbers. -/
def links (f : Ancestry) (search : Search) (root : Token) (n i : Nat) : List Nat :=
  (List.range (f.below search root n).length).filter fun j =>
    ((f.below search root n)[j]?.bind (·.child)) = some i

variable {f : Ancestry} {search : Search} {root : Token} {i m n : Nat} {p : Find}

theorem below_succ : f.below search root (n + 1) = f.below search root n ++ f.wave search root n := rfl

theorem wave_zero : f.wave search root 0 = [⟨root, 0, .native, none⟩] := rfl

theorem wave_succ : f.wave search root (n + 1) = Find.fresh (Find.identities (f.below search root (n + 1)))
    (f.named search (n + 1) (f.below search root n).length (f.wave search root n)) := rfl

/-- After an empty wave all waves are empty. -/
theorem wave_eq_nil_of_le (h : f.wave search root m = []) (hmn : m ≤ n) : f.wave search root n = [] := by
  induction n, hmn using Nat.le_induction with
  | base => exact h
  | succ n _ ih =>
    rw [wave_succ, ih]
    rfl

theorem length_below_le (hmn : m ≤ n) : (f.below search root m).length ≤ (f.below search root n).length := by
  induction n, hmn using Nat.le_induction with
  | base => exact Nat.le_refl _
  | succ n _ ih =>
    rw [below_succ, List.length_append]
    exact Nat.le_add_right_of_le ih

/-- The finds of a wave after the first are on its level, and were named by finds of the wave before. -/
theorem of_mem_wave_succ (hp : p ∈ f.wave search root (n + 1)) :
    p.level = n + 1 ∧ ∃ i, p.child = some i ∧ (f.below search root n).length ≤ i := by
  rw [wave_succ] at hp
  have hnamed := Find.mem_of_mem_fresh hp
  simp only [named, List.mem_flatMap, List.mem_map] at hnamed
  obtain ⟨⟨q, i⟩, hq, -, -, t, -, rfl⟩ := hnamed
  exact ⟨rfl, i, rfl, (List.mk_mem_zipIdx_iff_le_and_getElem?_sub.1 hq).1⟩

/-- The finds of a wave are on its level. -/
theorem level_of_mem_wave (hp : p ∈ f.wave search root n) : p.level = n := by
  cases n with
  | zero =>
    rw [wave_zero, List.mem_singleton] at hp
    rw [hp]
  | succ n => exact (of_mem_wave_succ hp).1

/-- A find below a wave named nothing of the waves after the next. -/
theorem links_succ (hi : i < (f.below search root n).length) :
    f.links search root (n + 2) i = f.links search root (n + 1) i := by
  have hlater : ∀ j : Nat, ((f.wave search root (n + 1))[j]?.bind (·.child)) ≠ some i := by
    intro j hj
    obtain ⟨p, hp, hchild⟩ := Option.bind_eq_some_iff.1 hj
    obtain ⟨-, i', hi', hle⟩ := of_mem_wave_succ (List.mem_of_getElem? hp)
    rw [hchild] at hi'
    cases hi'
    exact absurd hi (Nat.not_lt.2 hle)
  rw [links, links, below_succ (n := n + 1), List.length_append, List.range_add, List.filter_append]
  have hnew : ((List.range (f.wave search root (n + 1)).length).map fun j => (f.below search root (n + 1)).length + j).filter
      (fun j => decide ((((f.below search root (n + 1) ++ f.wave search root (n + 1))[j]?).bind (·.child)) = some i)) = [] := by
    refine List.filter_eq_nil_iff.2 fun j hj hc => ?_
    obtain ⟨k, -, rfl⟩ := List.mem_map.1 hj
    rw [decide_eq_true_iff, List.getElem?_append_right (Nat.le_add_right _ _), Nat.add_sub_cancel_left] at hc
    exact hlater k hc
  rw [hnew, List.append_nil]
  refine List.filter_congr fun j hj => ?_
  rw [List.getElem?_append_left (List.mem_range.1 hj)]

/-- What a find below a wave named does not change with the waves after the next. -/
theorem links_eq (hi : i < (f.below search root m).length) (hmn : m + 1 ≤ n) :
    f.links search root n i = f.links search root (m + 1) i := by
  induction n, hmn using Nat.le_induction with
  | base => rfl
  | succ n hmn ih =>
    obtain ⟨n, rfl⟩ : ∃ n', n = n' + 1 := ⟨n - 1, by omega⟩
    rw [links_succ (Nat.lt_of_lt_of_le hi (length_below_le (Nat.le_of_succ_le_succ hmn))), ih]

end Ancestry

namespace LevelGraph

/-- What a graph keeps of its nodes besides their parents. -/
def finds (g : LevelGraph) : List Find := g.nodes.toList.map fun n => ⟨n.token, n.level, n.branch, n.child⟩

/-- What a question about a node finds on the next level. -/
def asked (f : Ancestry) (g : LevelGraph) (q : NodeId × Branch) : List Find :=
  match g.token? q.1 with
  | none => []
  | some t => ((f.onBranch q.2 t.identity).getD []).map fun p => ⟨p, g.levelCount, q.2, some q.1⟩

/-- The graph is the survey of its root, up to its last level: its nodes are the finds in order, its levels are the waves, a node below
the last level has the parents that it named first, a node of the last level has none yet, and every find is found under its number. -/
structure Shows (f : Ancestry) (g : LevelGraph) : Prop where
  nodes : g.finds = f.below g.search g.root g.levelCount
  levels : ∀ k < g.levelCount,
    g.level? k = some (List.range' (f.below g.search g.root k).length (f.wave g.search g.root k).length)
  linked : ∀ i n : Nat, i < g.size → g.levelOf i + 1 < g.levelCount → g.levelCount ≤ n →
    g.parents i = f.links g.search g.root n i
  bare : ∀ i : Nat, g.levelCount ≤ g.levelOf i + 1 → g.parents i = []
  index : ∀ (t : Token) (i : Nat), g.find? t = some i ↔
    ∃ p, (f.below g.search g.root g.levelCount)[i]? = some p ∧ p.token.identity = t.identity

variable {f : Ancestry} {g g₀ : LevelGraph} {c i : Nat} {b : Branch} {t : Token}

/-! ## Finds and nodes -/

theorem getElem?_finds : g.finds[i]? = (g.node? i).map fun n => ⟨n.token, n.level, n.branch, n.child⟩ := by
  rw [finds, List.getElem?_map, Array.getElem?_toList]
  rfl

theorem length_finds : g.finds.length = g.size := by simp [finds, size]

theorem token?_eq_finds : g.token? i = g.finds[i]?.map (·.token) := by
  rw [getElem?_finds, Option.map_map]
  rfl

theorem child?_eq_finds : g.child? i = g.finds[i]?.bind (·.child) := by
  rw [getElem?_finds, Option.bind_map]
  rfl

theorem levelOf_eq_finds : g.levelOf i = (g.finds[i]?.map (·.level)).getD 0 := by
  rw [getElem?_finds, Option.map_map]
  rfl

/-- A tree contains a token exactly when one of its finds has that identity. -/
theorem Tree.contains_iff_finds (h : g.Tree) : g.contains t = true ↔ t.identity ∈ Find.identities g.finds := by
  rw [h.contains_iff, Find.identities, List.mem_map]
  constructor
  · rintro ⟨i, a, hi, ha⟩
    rw [token?_eq_finds, Option.map_eq_some_iff] at hi
    obtain ⟨p, hp, rfl⟩ := hi
    exact ⟨p, List.mem_of_getElem? hp, ha⟩
  · rintro ⟨p, hp, ha⟩
    obtain ⟨i, hi⟩ := List.mem_iff_getElem?.1 hp
    exact ⟨i, p.token, by rw [token?_eq_finds, hi]; rfl, ha⟩

/-- The parents of a node are the nodes that it found, in order. -/
theorem Tree.parents_eq (h : g.Tree) : g.parents i = g.ids.filter fun p => g.child? p = some i := by
  have hsorted : (g.ids.filter fun p => g.child? p = some i).Pairwise (· < ·) := List.pairwise_lt_range.filter _
  refine (h.increasing i).eq_of_mem_iff hsorted fun p => ?_
  rw [h.linked, List.mem_filter, ids, List.mem_range, decide_eq_true_iff]
  exact ⟨fun hp => ⟨lt_size_of_child? hp, hp⟩, fun hp => hp.2⟩

/-! ## Finds that are attached -/

theorem finds_attach (hc : c < g.size) (h : g.contains t = false) :
    (g.attach c b t).finds = g.finds ++ [⟨t, g.levelOf c + 1, b, some c⟩] := by
  refine List.ext_getElem? fun i => ?_
  rw [getElem?_finds, node?_attach hc h]
  split
  · next hi =>
    rw [hi, ← length_finds, List.getElem?_concat_length]
    rfl
  · next hi =>
    have hfinds : (g.finds ++ [⟨t, g.levelOf c + 1, b, some c⟩])[i]? = g.finds[i]? := by
      rcases Nat.lt_or_ge i g.size with hlt | hle
      · rw [List.getElem?_append_left (by rw [length_finds]; exact hlt)]
      · rw [List.getElem?_eq_none (by rw [List.length_append, length_finds, List.length_singleton]; omega),
          List.getElem?_eq_none (by rw [length_finds]; exact hle)]
    rw [hfinds, getElem?_finds]
    split
    · rw [Option.map_map]
      rfl
    · rfl

/-- Attaching parents to a node adds those that are fresh. -/
theorem Tree.finds_attachAll (h : g.Tree) (hc : c < g.size) (ts : List Token) :
    (g.attachAll c b ts).finds =
      g.finds ++ Find.fresh (Find.identities g.finds) (ts.map fun t => ⟨t, g.levelOf c + 1, b, some c⟩) := by
  induction ts generalizing g with
  | nil => exact (List.append_nil _).symm
  | cons t ts ih =>
    have he := extends_attach hc b t
    have hrest := ih (h.attach hc b t) (Nat.lt_of_lt_of_le hc he.size)
    rw [he.level c hc] at hrest
    rw [List.map_cons, Find.fresh]
    by_cases ht : t.identity ∈ Find.identities g.finds
    · rw [attach_of_contains (h.contains_iff_finds.2 ht)] at hrest
      rw [if_pos ht, ← hrest, attachAll, List.foldl_cons, attach_of_contains (h.contains_iff_finds.2 ht)]
      rfl
    · have hnew : g.contains t = false := Bool.eq_false_iff.2 fun hg => ht (h.contains_iff_finds.1 hg)
      rw [finds_attach hc hnew, Find.identities_append, List.append_assoc] at hrest
      rw [if_neg ht]
      exact hrest

/-- Answers to questions about the last level add what is fresh of what they find. -/
theorem Rising.finds_answered {g : LevelGraph} (h : Rising g₀ g) (qs : List (NodeId × Branch))
    (hqs : ∀ q ∈ qs, q.1 < g₀.size ∧ g₀.levelOf q.1 + 1 = g₀.levelCount) :
    (g.answered f qs).finds = g.finds ++ Find.fresh (Find.identities g.finds) (qs.flatMap (g₀.asked f)) := by
  induction qs generalizing g with
  | nil => exact (List.append_nil _).symm
  | cons q qs ih =>
    obtain ⟨hq, hl⟩ := hqs q List.mem_cons_self
    obtain ⟨t, ht⟩ := exists_token?_iff.2 hq
    have hqg : q.1 < g.size := Nat.lt_of_lt_of_le hq h.ext.size
    have hstep : g.attachAnswer f q = g.attachAll q.1 q.2 ((f.onBranch q.2 t.identity).getD []) := by
      rw [attachAnswer, h.ext.token?_eq ht]
    have hfinds := h.tree.finds_attachAll (b := q.2) hqg ((f.onBranch q.2 t.identity).getD [])
    have hasked : g₀.asked f q =
        ((f.onBranch q.2 t.identity).getD []).map fun p => ⟨p, g.levelOf q.1 + 1, q.2, some q.1⟩ := by
      rw [asked, ht, h.ext.level q.1 hq, hl]
    have hrest := ih (h.attachAll hq hl q.2 ((f.onBranch q.2 t.identity).getD [])) fun q' hq' =>
      hqs q' (List.mem_cons_of_mem q hq')
    rw [← hasked] at hfinds
    rw [hfinds, Find.identities_append, List.append_assoc, ← Find.fresh_append] at hrest
    rw [answered, List.foldl_cons, hstep, List.flatMap_cons]
    exact hrest

/-! ## One wave more -/

/-- Where the nodes are the finds up to a wave, those on lower levels are the finds below that wave. -/
theorem lt_length_below {m : Nat} (h : g.finds = f.below g.search g.root (m + 1)) (hi : i < g.size) (hlevel : g.levelOf i < m) :
    i < (f.below g.search g.root m).length := by
  refine Nat.lt_of_not_le fun hle => ?_
  have hfind : g.finds[i]? = (f.wave g.search g.root m)[i - (f.below g.search g.root m).length]? := by
    rw [h, Ancestry.below_succ, List.getElem?_append_right hle]
  rw [← length_finds] at hi
  rw [List.getElem?_eq_getElem hi] at hfind
  have hwave := Ancestry.level_of_mem_wave (List.mem_of_getElem? hfind.symm)
  rw [levelOf_eq_finds, List.getElem?_eq_getElem hi, Option.map_some, Option.getD_some, hwave] at hlevel
  exact Nat.lt_irrefl _ hlevel

/-- A charted graph shows a survey if its nodes are the finds and its levels are the waves: its links and its index follow. -/
theorem Charted.shows (h : g.Charted f) (hnodes : g.finds = f.below g.search g.root g.levelCount)
    (hlevels : ∀ k < g.levelCount,
      g.level? k = some (List.range' (f.below g.search g.root k).length (f.wave g.search g.root k).length)) :
    g.Shows f := by
  have hlinks : ∀ i, g.parents i = f.links g.search g.root g.levelCount i := fun i => by
    simp only [h.tree.parents_eq, ids, Ancestry.links, ← length_finds, hnodes, child?_eq_finds]
  obtain ⟨m, hm⟩ : ∃ m, g.levelCount = m + 1 := ⟨g.levelCount - 1, by have := h.levelCount_pos; omega⟩
  refine ⟨hnodes, hlevels, fun i n hi hlevel hn => ?_, fun i hi => ?_, fun t i => ?_⟩
  · have hlow := lt_length_below (hnodes.trans (congrArg _ hm)) hi (by omega)
    rw [hlinks, hm, Ancestry.links_eq (n := n) hlow (by omega)]
  · refine List.eq_nil_iff_forall_not_mem.2 fun p hp => ?_
    have hchild := (h.tree.linked i p).1 hp
    have := h.tree.levelOf_of_child? hchild
    have := h.levelled.levelOf_lt (lt_size_of_child? hchild)
    omega
  · rw [h.tree.find?_eq_some_iff, ← hnodes]
    simp only [token?_eq_finds, Option.map_eq_some_iff]
    constructor
    · rintro ⟨a, ⟨p, hp, rfl⟩, ha⟩
      exact ⟨p, hp, ha⟩
    · rintro ⟨p, hp, ha⟩
      exact ⟨p.token, ⟨p, hp, rfl⟩, ha⟩

/-- The questions of an expansion, asked of a graph that shows a survey, find what the last wave names. -/
theorem Shows.flatMap_asked (h : g.Shows f) {m : Nat} (hm : g.levelCount = m + 1) :
    g.questions.flatMap (g.asked f) =
      f.named g.search (m + 1) (f.below g.search g.root m).length (f.wave g.search g.root m) := by
  have hfrontier : g.frontier = ((f.wave g.search g.root m).zipIdx (f.below g.search g.root m).length).map Prod.snd := by
    have hlast := level?_frontier (g := g) (by omega)
    rw [hm, Nat.add_sub_cancel, h.levels m (by omega)] at hlast
    rw [List.zipIdx_map_snd, Option.some.inj hlast]
  rw [questions, hfrontier, List.flatMap_map, List.flatMap_assoc, Ancestry.named]
  refine List.flatMap_congr fun q hp => ?_
  obtain ⟨p, i⟩ := q
  obtain ⟨hle, hget⟩ := List.mk_mem_zipIdx_iff_le_and_getElem?_sub.1 hp
  have htoken : g.token? i = some p.token := by
    rw [token?_eq_finds, h.nodes, hm, Ancestry.below_succ, List.getElem?_append_right hle, hget]
    rfl
  simp only [List.flatMap_map, asked, htoken, hm]

theorem finds_closeLevel (n : Nat) : (g.closeLevel n).finds = g.finds := by
  obtain ⟨levels, more, hclose⟩ := g.exists_closeLevel_eq n
  rw [hclose]
  rfl

/-- An expansion of a graph that shows a survey adds the next wave to its nodes. -/
theorem Shows.finds_next (h : g.Shows f) (hg : g.Charted f) :
    (g.next f).finds = g.finds ++ f.wave g.search g.root g.levelCount := by
  obtain ⟨m, hm⟩ : ∃ m, g.levelCount = m + 1 := ⟨g.levelCount - 1, by have := hg.levelCount_pos; omega⟩
  have hqs : ∀ q ∈ g.quiet.questions, q.1 < g.quiet.size ∧ g.quiet.levelOf q.1 + 1 = g.quiet.levelCount := fun q hq =>
    (hg.quiet.levelled.mem_frontier_iff hg.quiet.levelCount_pos).1 (mem_questions_iff.1 hq).1
  have hasked : g.quiet.questions.flatMap (g.quiet.asked f) = _ := h.flatMap_asked hm
  rw [LevelGraph.next, finds_closeLevel, hg.quiet.tree.rising.finds_answered _ hqs, hasked]
  show g.finds ++ Find.fresh (Find.identities g.finds) _ = _
  rw [h.nodes, hm, Ancestry.wave_succ]

/-- A graph that shows a survey shows one wave more after an expansion. Where there is nothing in that wave, it stays as it is. -/
theorem Shows.next (h : g.Shows f) (hg : g.Charted f) :
    (g.next f).Shows f ∧
      ((f.wave g.search g.root g.levelCount ≠ [] ∧ (g.next f).more = true ∧ (g.next f).levelCount = g.levelCount + 1) ∨
        (f.wave g.search g.root g.levelCount = [] ∧ g.next f = g.quiet)) := by
  obtain ⟨hcharted, hsearch, hroot, -⟩ := hg.next
  have hfinds := h.finds_next hg
  have hlevels : (g.quiet.answered f g.quiet.questions).levels = g.levels := hg.quiet.answered.1.ext.levels
  have hsize : (g.quiet.answered f g.quiet.questions).size = g.quiet.size + (f.wave g.search g.root g.levelCount).length := by
    rw [LevelGraph.next, finds_closeLevel] at hfinds
    rw [← length_finds, hfinds, List.length_append, length_finds]
    rfl
  by_cases hwave : f.wave g.search g.root g.levelCount = []
  · rw [hwave, List.length_nil, Nat.add_zero] at hsize
    have hnext : g.next f = g.quiet := by
      rw [LevelGraph.next, closeLevel_of_le (Nat.le_of_eq hsize)]
      exact (answered_eq_or_lt f g.quiet _).resolve_right (by omega)
    rw [hnext]
    exact ⟨⟨h.nodes, h.levels, h.linked, h.bare, h.index⟩, Or.inr ⟨hwave, rfl⟩⟩
  · have hpos : 0 < (f.wave g.search g.root g.levelCount).length := List.length_pos_iff.2 hwave
    have hnext : g.next f = { g.quiet.answered f g.quiet.questions with
        levels := g.levels.push (List.range' g.size (f.wave g.search g.root g.levelCount).length), more := true } := by
      rw [LevelGraph.next, closeLevel_of_lt (by omega), hlevels, hsize, Nat.add_sub_cancel_left]
      rfl
    have hcount : (g.next f).levelCount = g.levelCount + 1 := by rw [hnext, levelCount, Array.size_push]; rfl
    refine ⟨hcharted.shows ?_ fun k hk => ?_, Or.inl ⟨hwave, by rw [hnext], hcount⟩⟩
    · rw [hfinds, hsearch, hroot, hcount, h.nodes, Ancestry.below_succ]
    · rw [hcount] at hk
      rw [hsearch, hroot, hnext]
      simp only [level?, Array.getElem?_push]
      split
      · next hlast =>
        rw [hlast, ← length_finds, h.nodes]
        rfl
      · next hlast => exact h.levels k (Nat.lt_of_le_of_ne (Nat.le_of_lt_succ hk) hlast)

end LevelGraph
end Lineage
