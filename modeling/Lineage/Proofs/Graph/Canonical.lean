import Lineage.Proofs.Graph.Calls
import Lineage.Proofs.Graph.Parallel

/-!
# Who found whom

A token may be named by several nodes of a level, by one node in its native and in its merged answer, and twice in one answer. The graph
keeps one node for it and one link. Which one is said here for every graph that was built and called in stable contexts: the levels are
the first occurrences in what the level before names, the child is the first node of that level that names the token, and the branch is
the first of its answers that does.
-/

namespace Lineage

namespace Find

variable {known known' : List Identity} {p : Find} {ps : List Find}

/-- What is known is not fresh. -/
theorem not_mem_of_mem_fresh (h : p ∈ fresh known ps) : p.token.identity ∉ known := by
  induction ps generalizing known with
  | nil => cases h
  | cons q ps ih =>
    rw [fresh] at h
    split at h
    · exact ih h
    · next hq =>
      rcases List.mem_cons.1 h with rfl | h
      · exact hq
      · exact fun hp => ih h (List.mem_append_left _ hp)

/-- What is known can be left out at the beginning. -/
theorem fresh_append_known (known known' : List Identity) (ps : List Find) :
    fresh (known ++ known') ps = fresh known' (ps.filter fun p => p.token.identity ∉ known) := by
  induction ps generalizing known' with
  | nil => rfl
  | cons p ps ih =>
    by_cases hp : p.token.identity ∈ known
    · rw [fresh, if_pos (List.mem_append_left _ hp), List.filter_cons_of_neg (by simpa using hp), ih]
    · have hmem : p.token.identity ∈ known ++ known' ↔ p.token.identity ∈ known' := by rw [List.mem_append, or_iff_right hp]
      rw [List.filter_cons_of_pos (by simpa using hp)]
      simp only [fresh, hmem, List.append_assoc, ih]

/-- The fresh finds have the tokens that are not known, without repetitions. -/
theorem map_token_fresh (known : List Identity) (ps : List Find) :
    (fresh known ps).map (·.token) = Token.distinct ((ps.map (·.token)).filter fun t => t.identity ∉ known) := by
  have h := fresh_append_known known [] ps
  rw [List.append_nil] at h
  rw [h, ← distinct_map_token, List.filter_map]
  rfl

/-- A fresh find is the first that names its object. -/
theorem find?_of_mem_fresh (h : p ∈ fresh known ps) : (ps.find? fun q => q.token.identity = p.token.identity) = some p := by
  induction ps generalizing known with
  | nil => cases h
  | cons q ps ih =>
    rw [fresh] at h
    by_cases hq : q.token.identity ∈ known
    · rw [if_pos hq] at h
      have hne : q.token.identity ≠ p.token.identity := fun heq => not_mem_of_mem_fresh h (heq ▸ hq)
      rw [List.find?_cons_of_neg (by simpa using hne), ih h]
    · rw [if_neg hq] at h
      rcases List.mem_cons.1 h with rfl | h
      · rw [List.find?_cons_of_pos (by simp)]
      · have hne : q.token.identity ≠ p.token.identity := fun heq =>
          not_mem_of_mem_fresh h (List.mem_append_right _ (List.mem_singleton.2 heq.symm))
        rw [List.find?_cons_of_neg (by simpa using hne), ih h]

end Find

namespace Ancestry

/-- The branch on which a parent is found: the native one, if the search asks for it and its answer names the parent. -/
def foundOn (f : Ancestry) (search : Search) (x y : Identity) : Branch :=
  if search.includesNative && ((f .native x).getD []).any (·.identity = y) then .native else .hooked

variable {f : Ancestry} {search : Search} {root : Token} {x : Identity} {level first k m n : Nat} {q r : Find} {ps : List Find}

/-! ## What names a token first -/

theorem includesNative_of_mem (h : Branch.native ∈ search.branches) : search.includesNative = true := by
  cases search <;> simp_all [Search.branches, Search.includesNative]

/-- The native question is asked first, if it is asked. -/
theorem exists_branches_eq (h : search.includesNative = true) : ∃ bs, search.branches = .native :: bs := by
  rw [Search.branches, if_pos h]
  exact ⟨_, rfl⟩

/-- What one find names, as finds on the next level. -/
def namedBy (f : Ancestry) (search : Search) (level : Nat) (q : Find) (i : Nat) : List Find :=
  search.branches.flatMap fun b => ((f.onBranch b q.token.identity).getD []).map fun t => ⟨t, level, b, some i⟩

theorem named_cons (f : Ancestry) (search : Search) (level first : Nat) (q : Find) (ps : List Find) :
    f.named search level first (q :: ps) = f.namedBy search level q first ++ f.named search level (first + 1) ps := by
  rw [named, List.zipIdx_cons, List.flatMap_cons]
  rfl

theorem map_token_namedBy (f : Ancestry) (search : Search) (level : Nat) (q : Find) (i : Nat) :
    (f.namedBy search level q i).map (·.token) = f.parents search q.token.identity := by
  simp only [namedBy, parents, List.map_flatMap, List.map_map, Function.comp_def, List.map_id']

/-- What finds name are their parents, find by find. -/
theorem map_token_named (f : Ancestry) (search : Search) (level first : Nat) (ps : List Find) :
    (f.named search level first ps).map (·.token) = (ps.map (·.token)).flatMap fun t => f.parents search t.identity := by
  induction ps generalizing first with
  | nil => rfl
  | cons q ps ih => rw [named_cons, List.map_append, map_token_namedBy, ih, List.map_cons, List.flatMap_cons]

theorem find?_namedBy_isSome {i : Nat} :
    ((f.namedBy search level q i).find? fun r => r.token.identity = x).isSome ↔ f.Parent search q.token.identity x := by
  simp [Parent, ← map_token_namedBy f search level q i]

/-- Of what one find names, a token is found on the first branch that names it. -/
theorem branch_of_find?_namedBy {i : Nat} (h : ((f.namedBy search level q i).find? fun r => r.token.identity = x) = some r) :
    r.child = some i ∧ r.branch = f.foundOn search q.token.identity x := by
  have hmem := List.mem_of_find?_eq_some h
  simp only [namedBy, List.mem_flatMap, List.mem_map] at hmem
  obtain ⟨b, hb, t, ht, rfl⟩ := hmem
  refine ⟨rfl, ?_⟩
  have hname : t.identity = x := by simpa using List.find?_some h
  cases b with
  | native =>
    have hnative : search.includesNative = true := includesNative_of_mem hb
    rw [foundOn, hnative, Bool.true_and, if_pos]
    exact List.any_eq_true.2 ⟨t, ht, decide_eq_true hname⟩
  | hooked =>
    -- the native answer comes first where it is asked for, so it does not name the token
    rw [foundOn, if_neg]
    rw [Bool.and_eq_true, List.any_eq_true]
    rintro ⟨hnative, u, hu, hux⟩
    obtain ⟨bs, hbs⟩ := exists_branches_eq hnative
    rw [namedBy, hbs, List.flatMap_cons, List.find?_append, Option.or_eq_some_iff] at h
    rcases h with h | ⟨hnone, -⟩
    · obtain ⟨v, -, hv⟩ := List.mem_map.1 (List.mem_of_find?_eq_some h)
      cases hv
    · exact List.find?_eq_none.1 hnone _ (List.mem_map_of_mem hu) hux

/-- Of what finds name, a token is found by the first that names it. -/
theorem find?_named_eq_some (h : ((f.named search level first ps).find? fun r => r.token.identity = x) = some r) :
    ∃ ps₁ q ps₂, ps = ps₁ ++ q :: ps₂ ∧ f.Parent search q.token.identity x ∧ r.child = some (first + ps₁.length) ∧
      r.branch = f.foundOn search q.token.identity x ∧ ∀ p ∈ ps₁, ¬f.Parent search p.token.identity x := by
  induction ps generalizing first with
  | nil => cases h
  | cons q ps ih =>
    rw [named_cons, List.find?_append] at h
    cases hq : (f.namedBy search level q first).find? fun r => r.token.identity = x with
    | some r' =>
      rw [hq, Option.some_or, Option.some.injEq] at h
      subst h
      obtain ⟨hchild, hbranch⟩ := branch_of_find?_namedBy hq
      exact ⟨[], q, ps, rfl, find?_namedBy_isSome.1 (Option.isSome_iff_exists.2 ⟨_, hq⟩), hchild, hbranch, fun _ hp => nomatch hp⟩
    | none =>
      rw [hq, Option.none_or] at h
      obtain ⟨ps₁, q', ps₂, rfl, hparent, hchild, hbranch, hbefore⟩ := ih h
      refine ⟨q :: ps₁, q', ps₂, rfl, hparent, ?_, hbranch, fun p hp => ?_⟩
      · rw [hchild, List.length_cons, Nat.add_assoc, Nat.add_comm 1]
      · rcases List.mem_cons.1 hp with rfl | hp
        · intro hp
          have hsome : ((f.namedBy search level p first).find? fun r => r.token.identity = x).isSome := find?_namedBy_isSome.2 hp
          rw [hq] at hsome
          cases hsome
        · exact hbefore p hp

/-! ## Waves -/

/-- The finds of a wave have the tokens that the wave before names and that were not found before, without repetitions. -/
theorem map_token_wave_succ (f : Ancestry) (search : Search) (root : Token) (n : Nat) :
    (f.wave search root (n + 1)).map (·.token) =
      Token.distinct ((((f.wave search root n).map (·.token)).flatMap fun t => f.parents search t.identity).filter
        fun t => t.identity ∉ Find.identities (f.below search root (n + 1))) := by
  rw [wave_succ, Find.map_token_fresh, map_token_named]

/-- The finds before a wave begin with those before an earlier wave. -/
theorem exists_below_eq (hmn : m ≤ n) : ∃ ps, f.below search root n = f.below search root m ++ ps := by
  induction n, hmn using Nat.le_induction with
  | base => exact ⟨[], (List.append_nil _).symm⟩
  | succ n _ ih =>
    obtain ⟨ps, hps⟩ := ih
    exact ⟨ps ++ f.wave search root n, by rw [below_succ, hps, List.append_assoc]⟩

end Ancestry

namespace LevelGraph

/-- Whether a node names a token as one of its parents. -/
def namesParent (f : Ancestry) (g : LevelGraph) (t : Token) (c : NodeId) : Bool :=
  (g.token? c).any fun u => (f.parents g.search u.identity).any (·.same t)

/-- The graphs that there can be in stable contexts: each was built there, completely or not, and then called any number of times. A call
may have failed because the graph was too deep. -/
inductive Undisturbed (f : Ancestry) (scope : Scope) (search : Search) (root : Token) : LevelGraph → Prop where
  | built {σ : Type} [Sources σ] {c c' : Context σ} {onlyOne : Bool} {g : LevelGraph} :
      c.Stable f → build scope search root onlyOne c = (.ok g, c') → Undisturbed f scope search root g
  | called {σ : Type} [Sources σ] {c : Context σ} {g : LevelGraph} (call : Growing.Call) :
      c.Stable f → Undisturbed f scope search root g → Undisturbed f scope search root (call.run (⟨g, c⟩ : Growing σ)).2.graph

variable {f : Ancestry} {scope : Scope} {search : Search} {root : Token} {g : LevelGraph} {i k : Nat} {ids ids' : List NodeId} {t : Token}

/-! ## Levels that show waves -/

/-- Nodes with consecutive numbers have the tokens of consecutive finds. -/
theorem tokens_range' {ps qs rs : List Find} (h : g.finds = ps ++ qs ++ rs) :
    g.tokens (List.range' ps.length qs.length) = qs.map (·.token) := by
  induction qs generalizing ps with
  | nil => rfl
  | cons q qs ih =>
    have htoken : g.token? ps.length = some q.token := by
      rw [token?_eq_finds, h]
      simp
    have hrest : g.tokens (List.range' (ps ++ [q]).length qs.length) = _ := ih (by simpa using h)
    rw [List.length_append, List.length_singleton] at hrest
    rw [List.length_cons, List.range'_succ, tokens, List.filterMap_cons_some htoken, List.map_cons]
    exact congrArg _ hrest

/-- The finds of a graph up to a wave that it shows. -/
theorem Shows.exists_finds_eq (h : g.Shows f) (hk : k ≤ g.levelCount) : ∃ ps, g.finds = f.below g.search g.root k ++ ps := by
  rw [h.nodes]
  exact Ancestry.exists_below_eq hk

theorem Shows.level?_eq (h : g.Shows f) (hk : g.level? k = some ids) :
    ids = List.range' (f.below g.search g.root k).length (f.wave g.search g.root k).length := by
  rw [h.levels k (lt_levelCount_of_level? hk)] at hk
  exact (Option.some.inj hk).symm

/-- A level has the tokens of its wave. -/
theorem Shows.tokens_level (h : g.Shows f) (hk : g.level? k = some ids) :
    g.tokens ids = (f.wave g.search g.root k).map (·.token) := by
  obtain ⟨ps, hps⟩ := h.exists_finds_eq (Nat.succ_le_of_lt (lt_levelCount_of_level? hk))
  rw [Ancestry.below_succ] at hps
  rw [h.level?_eq hk, tokens_range' hps]

/-- The first levels list the finds before a wave. -/
theorem Shows.flatten_take (h : g.Shows f) (hk : k ≤ g.levelCount) :
    (g.levels.toList.take k).flatten = List.range (f.below g.search g.root k).length := by
  induction k with
  | zero => rfl
  | succ k ih =>
    have hlevel : g.levels.toList[k]? = _ := Array.getElem?_toList.trans (h.levels k hk)
    rw [List.take_add_one, hlevel, List.flatten_append, ih (Nat.le_of_succ_le hk), Ancestry.below_succ, List.length_append,
      List.range_eq_range', List.range_eq_range', Option.toList_some, List.flatten_singleton]
    simpa using List.range'_append_1 (s := 0)

/-- What is on the first levels is what was found before a wave. -/
theorem Shows.names_take (h : g.Shows f) (hk : k ≤ g.levelCount) :
    g.names (g.levels.toList.take k).flatten = Find.identities (f.below g.search g.root k) := by
  obtain ⟨ps, hps⟩ := h.exists_finds_eq hk
  have htokens := tokens_range' (show g.finds = [] ++ f.below g.search g.root k ++ ps from hps)
  rw [List.length_nil, ← List.range_eq_range'] at htokens
  rw [h.flatten_take hk, names, htokens, List.map_map]
  rfl

/-- The wave after a level has the first tokens that the level names and that are not in the graph up to there. -/
theorem Shows.map_token_wave_succ (h : g.Shows f) (hk : g.level? k = some ids) :
    (f.wave g.search g.root (k + 1)).map (·.token) =
      Token.distinct (((g.tokens ids).flatMap fun t => f.parents g.search t.identity).filter
        fun t => t.identity ∉ g.names (g.levels.toList.take (k + 1)).flatten) := by
  rw [Ancestry.map_token_wave_succ, h.tokens_level hk, h.names_take (lt_levelCount_of_level? hk)]

/-- The nodes of a level are the finds of its wave. -/
theorem Shows.getElem?_finds_of_level (h : g.Shows f) (hk : g.level? k = some ids) {j : Nat} (hj : j < (f.wave g.search g.root k).length) :
    g.finds[(f.below g.search g.root k).length + j]? = (f.wave g.search g.root k)[j]? := by
  obtain ⟨ps, hps⟩ := h.exists_finds_eq (Nat.succ_le_of_lt (lt_levelCount_of_level? hk))
  rw [hps, Ancestry.below_succ, List.append_assoc, List.getElem?_append_right (Nat.le_add_right _ _), Nat.add_sub_cancel_left,
    List.getElem?_append_left hj]

theorem namesParent_iff {c : Nat} {u : Token} (hu : g.token? c = some u) :
    g.namesParent f t c = true ↔ f.Parent g.search u.identity t.identity := by
  simp only [namesParent, hu, Option.any_some, List.any_eq_true, Token.same_iff, Ancestry.Parent]

/-- A node of a level has as its child the first node of the level before that names it, and its branch is the first that names it. -/
theorem Shows.exists_child (h : g.Shows f) (hk : g.level? k = some ids) (hk' : g.level? (k + 1) = some ids') (hi : i ∈ ids') :
    ∃ t c u, g.token? i = some t ∧ g.child? i = some c ∧ ids.find? (g.namesParent f t) = some c ∧ g.token? c = some u ∧
      (g.node? i).map (·.branch) = some (f.foundOn g.search u.identity t.identity) := by
  rw [h.level?_eq hk', List.mem_range'_1] at hi
  obtain ⟨j, rfl⟩ := Nat.exists_eq_add_of_le hi.1
  have hj : j < (f.wave g.search g.root (k + 1)).length := by omega
  have hr : g.finds[(f.below g.search g.root (k + 1)).length + j]? = some (f.wave g.search g.root (k + 1))[j] := by
    rw [h.getElem?_finds_of_level hk' hj, List.getElem?_eq_getElem hj]
  obtain ⟨r, hwave⟩ : ∃ r, (f.wave g.search g.root (k + 1))[j] = r := ⟨_, rfl⟩
  rw [hwave] at hr
  have hmem : r ∈ f.wave g.search g.root (k + 1) := hwave ▸ List.getElem_mem hj
  rw [Ancestry.wave_succ] at hmem
  obtain ⟨ps₁, q, ps₂, hps, hparent, hchild, hbranch, hbefore⟩ := Ancestry.find?_named_eq_some (Find.find?_of_mem_fresh hmem)
  have hlength : (f.wave g.search g.root k).length = ps₁.length + (ps₂.length + 1) := by rw [hps, List.length_append, List.length_cons]
  -- the nodes before the child are those of the finds before the one that named it
  have htoken : ∀ j', j' < ps₁.length + 1 → g.token? ((f.below g.search g.root k).length + j') = (ps₁ ++ [q])[j']?.map (·.token) := by
    intro j' hj'
    rw [token?_eq_finds, h.getElem?_finds_of_level hk (by omega), hps, List.append_cons, List.getElem?_append_left (by simpa using hj')]
  have hu := htoken ps₁.length (Nat.lt_succ_self _)
  rw [List.getElem?_concat_length] at hu
  refine ⟨r.token, _, q.token, by rw [token?_eq_finds, hr]; rfl, by rw [child?_eq_finds, hr]; exact hchild, ?_, hu, ?_⟩
  · rw [h.level?_eq hk, List.find?_range'_eq_some]
    refine ⟨(namesParent_iff hu).2 hparent, List.mem_range'_1.2 (by omega), fun c hc hlt => ?_⟩
    obtain ⟨j', rfl⟩ := Nat.exists_eq_add_of_le hc
    have hj' : j' < ps₁.length := by omega
    have hv := htoken j' (by omega)
    rw [List.getElem?_append_left hj', List.getElem?_eq_getElem hj'] at hv
    rw [Bool.not_eq_true', ← Bool.not_eq_true, namesParent_iff hv]
    exact hbefore _ (List.getElem_mem hj')
  · rw [← hbranch]
    rw [getElem?_finds] at hr
    obtain ⟨n, hn, rfl⟩ := Option.map_eq_some_iff.1 hr
    rw [hn]
    rfl

/-! ## Every undisturbed graph is a stage -/

variable (f scope search root) in
/-- An expansion in a stable context leads from stages to stages. -/
theorem keeps_stage_expand {σ : Type} [Sources σ] :
    Act.Keeps (fun s => ∃ d, 0 < d ∧ Growing.At f True (stage f scope search root d) s) (Growing.expand : Run (Growing σ) Unit) := by
  rintro s ⟨d, hpos, hs⟩
  rcases (Growing.expand_stable _).outcome hs with ⟨u, s', hr, -, hs'⟩ | ⟨e, s', hr, -, -, hs'⟩
  · rw [hr]
    exact ⟨d + 1, Nat.succ_pos d, hs'⟩
  · rw [hr]
    exact ⟨d, hpos, hs'⟩

/-- In stable contexts a graph is always at some stage, and not at the first one. -/
theorem Undisturbed.exists_stage (h : Undisturbed f scope search root g) : ∃ d, 0 < d ∧ g = stage f scope search root d := by
  induction h with
  | @built σ _ c c' onlyOne g hc hb =>
    cases onlyOne with
    | false => exact ⟨maxLevel + 1, Nat.succ_pos _, ((build_stage f scope search root).of_ok hc hb).1.1⟩
    | true => exact ⟨1, Nat.one_pos, ((build_lazy f scope search root).of_ok hc hb).1⟩
  | @called σ _ c g call hc _ ih =>
    obtain ⟨d, hpos, rfl⟩ := ih
    obtain ⟨d', hpos', hg, -⟩ := Growing.keeps_call (keeps_stage_expand f scope search root) call
      (⟨stage f scope search root d, c⟩ : Growing σ) ⟨d, hpos, rfl, hc⟩
    exact ⟨d', hpos', hg⟩

/-- Every link of a graph is determined by the ancestry. Of a graph that was built and called in stable contexts, the level lists one
after the other are the nodes in order, beginning with the root. The level after a level, which may be empty once it is known that there
is none, has the first token of every object that the level names, node by node and the native answer of a node before the merged one,
unless that object is on one of the levels so far. Every node of that level has as its child the first node of the level before that
names its token, and it is native exactly if native parents are followed and the native answer about the child names it. The parents of
a node are the nodes that have it as their child, in order. -/
theorem links_determined (h : Undisturbed f scope search root g) :
    g.levels.toList.flatten = g.ids ∧ g.level? 0 = some [0] ∧ g.token? 0 = some root ∧
    (∀ k ids, g.level? k = some ids → k + 1 < g.levelCount ∨ g.more = false →
      g.tokens ((g.level? (k + 1)).getD []) = Token.distinct (((g.tokens ids).flatMap fun t => f.parents search t.identity).filter
        fun t => t.identity ∉ g.names (g.levels.toList.take (k + 1)).flatten)) ∧
    (∀ k ids ids', g.level? k = some ids → g.level? (k + 1) = some ids' → ∀ i ∈ ids', ∃ t c u,
      g.token? i = some t ∧ g.child? i = some c ∧ ids.find? (g.namesParent f t) = some c ∧ g.token? c = some u ∧
      (g.node? i).map (·.branch) = some (f.foundOn search u.identity t.identity)) ∧
    ∀ c : Nat, g.parents c = g.ids.filter fun i => g.child? i = some c := by
  obtain ⟨d, hpos, rfl⟩ := h.exists_stage
  obtain ⟨hcharted, hsearch, hroot⟩ := charted_stage f scope search root d
  have hshows := shows_stage f scope search root d
  refine ⟨hcharted.levelled.listed, ?_, ?_, fun k ids hk hend => ?_, fun k ids ids' hk hk' i hi => ?_, fun c => hcharted.tree.parents_eq⟩
  · rw [hshows.levels 0 hcharted.levelCount_pos]
    rfl
  · rw [hcharted.tree.root, hroot]
  · have hwave := hshows.map_token_wave_succ hk
    rw [hsearch] at hwave
    rw [← hwave]
    have hlt := lt_levelCount_of_level? hk
    cases hk' : (stage f scope search root d).level? (k + 1) with
    | some ids' =>
      have htokens := hshows.tokens_level hk'
      rw [hsearch] at htokens
      rw [Option.getD_some, htokens]
    | none =>
      -- there is no such level, so it is known that there are no more waves
      have hcount := mt isSome_level?_iff.2 (by rw [hk']; exact Bool.false_ne_true)
      have hempty : f.wave search root d = [] := by
        obtain ⟨d, rfl⟩ : ∃ d', d = d' + 1 := ⟨d - 1, by omega⟩
        refine Classical.byContradiction fun hne => ?_
        have hmore : (stage f scope search root (d + 1)).more = true := more_stage hne
        rw [hend.resolve_left hcount] at hmore
        cases hmore
      have hlast := (stage_exhausted scope hempty).1
      rw [hroot, Ancestry.wave_eq_nil_of_le hlast (Nat.le_of_not_lt hcount)]
      rfl
  · have hchild := hshows.exists_child hk hk' hi
    rwa [hsearch] at hchild

/-- A page below two others, and two more that are named twice each. The first of the two below names one natively and hooks it, and
hooks the other one, which the second of the two names natively. Both are found by the first of the two, one natively and one not. -/
theorem links_determined_twice :
    let a := Token.element "page" "site" "1"
    let b := Token.element "page" "site" "2"
    let c := Token.element "page" "site" "3"
    let d := Token.element "page" "site" "4"
    let e := Token.element "page" "site" "5"
    let l := (((Listing.empty.add a b).add a c).add b d).add c e
    let h := (Hooks.empty.add b e).add b d
    ∃ g, Undisturbed (Ancestry.ofTables l h) none .both a g ∧ g.token? 3 = some d ∧ g.token? 4 = some e ∧
      g.child? 3 = some 1 ∧ g.child? 4 = some 1 ∧
      (g.node? 3).map (·.branch) = some .native ∧ (g.node? 4).map (·.branch) = some .hooked := by
  intro a b c d e l h
  let f := Ancestry.ofTables l h
  have hview : ((build none .both a false (Context.new (Catalog.ofTables l h) {})).1.toOption.map fun g =>
      ([g.level? 1, g.level? 2], [g.token? 1, g.token? 3, g.token? 4], [d, e].map fun t => [1, 2].find? (g.namesParent f t))) =
      some ([some [1, 2], some [3, 4]], [some b, some d, some e], [some 1, some 1]) := by decide +kernel
  obtain ⟨g, c', hb, hg⟩ := Act.exists_of_map_eq_some hview
  simp only [Prod.mk.injEq, List.map_cons, List.map_nil, List.cons.injEq, and_true] at hg
  obtain ⟨⟨hone, htwo⟩, ⟨htb, htd, hte⟩, hfd, hfe⟩ := hg
  have hu : Undisturbed f none .both a g := Undisturbed.built (Catalog.stable_ofTables l h {}) hb
  obtain ⟨-, -, -, -, hlinks, -⟩ := links_determined hu
  obtain ⟨t, i, u, ht, hi, hfind, htoken, hbranch⟩ := hlinks 1 [1, 2] [3, 4] hone htwo 3 (by decide)
  obtain ⟨t', i', u', ht', hi', hfind', htoken', hbranch'⟩ := hlinks 1 [1, 2] [3, 4] hone htwo 4 (by decide)
  obtain rfl : d = t := Option.some.inj (htd.symm.trans ht)
  obtain rfl : e = t' := Option.some.inj (hte.symm.trans ht')
  obtain rfl : 1 = i := Option.some.inj (hfd.symm.trans hfind)
  obtain rfl : 1 = i' := Option.some.inj (hfe.symm.trans hfind')
  obtain rfl : b = u := Option.some.inj (htb.symm.trans htoken)
  obtain rfl : b = u' := Option.some.inj (htb.symm.trans htoken')
  exact ⟨g, hu, htd, hte, hi, hi', hbranch.trans (by decide +kernel), hbranch'.trans (by decide +kernel)⟩

end LevelGraph
end Lineage
