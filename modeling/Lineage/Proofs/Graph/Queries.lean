import Lineage.Proofs.Noted
import Lineage.Proofs.Graph.Asking
import Lineage.Proofs.Graph.Depth
import Mathlib.Data.List.Nodup

/-!
# What sources are asked for a graph

Without a cache every question of an expansion goes to the sources. So what they were asked for a graph can be read off the graph: about
the nodes of the levels that were expanded, level by level and node by node, in each category that the graph follows. A level is expanded
when the next one is looked for and never again, and when a source fails nothing is asked any more. `Consulted` says what was asked
up to now, and `Consults` what one call asks.
-/

namespace Lineage

namespace Search

/-- The categories of the sources that are asked about a node, in order. -/
def categories (s : Search) : List Category :=
  (if s.includesNative then [.native] else []) ++ (if s.includesHooked then [.auxiliary, .hooking] else [])

/-- They are those of the branches. -/
theorem categories_eq (s : Search) : s.categories = s.branches.flatMap Branch.categories := by cases s <;> rfl

theorem nodup_categories (s : Search) : s.categories.Nodup := by cases s <;> decide

end Search

namespace LevelGraph

/-- The nodes of all levels. -/
def listed (g : LevelGraph) : List NodeId := g.levels.toList.flatten

/-- The nodes of all levels but the last. -/
def lower (g : LevelGraph) : List NodeId := g.levels.toList.dropLast.flatten

/-- What sources are asked about some nodes when they are expanded. -/
def queries (g : LevelGraph) (ids : List NodeId) : List (Category × Token) :=
  (g.tokens ids).flatMap fun t => g.search.categories.map (·, t)

variable {g g' : LevelGraph} {ids : List NodeId}

theorem queries_append (g : LevelGraph) (ids more : List NodeId) : g.queries (ids ++ more) = g.queries ids ++ g.queries more := by
  simp [queries, tokens]

/-- What sources are asked is about the tokens of the nodes. -/
theorem exists_token?_of_mem_queries {q : Category × Token} (h : q ∈ g.queries ids) : ∃ i ∈ ids, g.token? i = some q.2 := by
  obtain ⟨t, ht, hq⟩ := List.mem_flatMap.1 h
  obtain ⟨category, -, rfl⟩ := List.mem_map.1 hq
  exact List.mem_filterMap.1 ht

/-- The questions about nodes are the same in a graph that has the same tokens there. -/
theorem queries_congr (hsearch : g'.search = g.search) (htoken : ∀ i ∈ ids, g'.token? i = g.token? i) :
    g'.queries ids = g.queries ids := by
  have htokens : g'.tokens ids = g.tokens ids := List.filterMap_congr htoken
  rw [queries, queries, htokens, hsearch]

/-- The last level comes after the others. -/
theorem listed_eq (h : 0 < g.levelCount) : g.listed = g.lower ++ g.frontier := by
  have hne : g.levels.toList ≠ [] := fun hnil => by
    rw [levelCount, ← Array.length_toList, hnil] at h
    exact Nat.lt_irrefl 0 h
  have hlast : g.frontier = g.levels.toList.getLast hne := by
    rw [frontier, ← Array.getLast?_toList, List.getLast?_eq_getLast_of_ne_nil hne]
    rfl
  rw [listed, lower, hlast]
  conv_lhs => rw [← List.dropLast_append_getLast hne]
  simp

/-- Questions of a graph through the cache, as those that sources are asked. -/
theorem flatMap_lookups (g : LevelGraph) (ids : List NodeId) :
    ((g.lookups ids).flatMap fun q => q.branch.categories.map (·, q.token)) = g.queries ids := by
  simp only [lookups, queries, List.flatMap_assoc, List.flatMap_map, Search.categories_eq, List.map_flatMap]

/-- A node of a level is there, and no higher than the levels go. -/
theorem WellFormed.lt_size_of_listed (h : g.WellFormed) {i : NodeId} (hi : i ∈ g.listed) : i < g.size ∧ g.levelOf i < g.levelCount := by
  obtain ⟨k, ids, hk, hmem⟩ := mem_flatten_iff.1 hi
  have hlevel : g.level? k = some ids := by
    rw [level?, ← Array.getElem?_toList]
    exact hk
  obtain ⟨hlt, hlevelOf⟩ := h.listed k ids hlevel i hmem
  exact ⟨hlt, hlevelOf ▸ lt_levelCount_of_level? hlevel⟩

end LevelGraph

namespace Context

/-! ## Without a cache -/

variable {σ : Type} [Sources σ] {c : Context (Noted σ)}

/-- A cache that is switched off keeps nothing. -/
theorem asking_keep (h : c.cache.settings.enabled = false) (b : Branch) (scope : Scope) (t : Token) (a : Answer) :
    Asking c [] (keep b scope t a) := by
  have hkeep : keep b scope t a c = (.ok (), c) := by simp [keep, Cache.add, Cache.userFor, h]
  intro c' hc'
  rw [hc', hkeep]
  exact Queried.refl c

/-- Where the cache is switched off a lookup is a question to the sources. -/
theorem asking_parents (h : c.cache.settings.enabled = false) (scope : Scope) (b : Branch) (t : Token) :
    Asking c (b.categories.map (·, t)) (parents scope b t) := by
  have hlookup : lookup b scope t c = (.ok none, c) := by simp [lookup, Cache.lookup, Cache.userFor, h]
  have hrest : Asking c (b.categories.map (·, t) ++ ([] ++ []))
      (do let a ← askBranch b t; keep b scope t a; pure a) := by
    refine (asking_askBranch c b t).bind fun a c' hcache => (asking_keep ?_ b scope t a).bind fun _ c'' _ => asking_pure c'' a
    rw [hcache, h]
  intro c' hc'
  rw [hc', parents, Act.bind_of_ok hlookup]
  simpa using hrest c rfl

/-- So are lookups one after the other. -/
theorem asking_askAll (h : c.cache.settings.enabled = false) (qs : List Question) :
    Asking c (qs.flatMap fun q => q.branch.categories.map (·, q.token)) (askAll qs) := by
  induction qs generalizing c with
  | nil => exact asking_pure c ()
  | cons q qs ih =>
    refine (asking_parents h q.scope q.branch q.token).bind fun _ c' hcache => ih ?_
    rw [hcache, h]

end Context

namespace LevelGraph

variable {g g' : LevelGraph}

/-! ## What was asked -/

/-- What the sources of a graph were asked when they were asked about its levels, where `broken` says that one of them failed. If there
may be more levels, they were asked about all but the last one, and if not then about the last one too. If one failed, it was when they
were asked about the last level. -/
inductive Consulted (g : LevelGraph) (broken : Prop) : List (Category × Token) → Prop where
  | lower : ¬broken → g.more = true → Consulted g broken (g.queries g.lower)
  | listed : ¬broken → g.more = false → Consulted g broken (g.queries g.listed)
  | failed {asked : List (Category × Token)} :
      broken → g.more = false → asked <+: g.queries g.frontier → Consulted g broken (g.queries g.lower ++ asked)

variable {p q : Prop} {asked qs : List (Category × Token)}

theorem Consulted.congr (h : p ↔ q) (hc : g.Consulted p qs) : g.Consulted q qs := propext h ▸ hc

/-- As long as there may be more levels, nothing failed and the last level was not asked about. -/
theorem Consulted.of_more (h : g.Consulted p qs) (hmore : g.more = true) : ¬p ∧ qs = g.queries g.lower := by
  cases h with
  | lower hp _ => exact ⟨hp, rfl⟩
  | listed _ hno | failed _ hno _ =>
    rw [hmore] at hno
    cases hno

/-- All that was asked is about nodes of the levels, in order. -/
theorem Consulted.isPrefix (h : g.Consulted p qs) (hpos : 0 < g.levelCount) : qs <+: g.queries g.listed := by
  rw [listed_eq hpos, queries_append]
  cases h with
  | lower _ _ => exact List.prefix_append _ _
  | listed _ _ => rw [listed_eq hpos, queries_append]
  | failed _ _ hasked => exact (List.prefix_append_right_inj _).2 hasked

/-- No question comes twice: the nodes of the levels name different things, and a node is asked about once in each category. -/
theorem WellFormed.nodup_queries (h : g.WellFormed) : ((g.queries g.listed).map fun q => (q.1, q.2.identity)).Nodup := by
  have hidentities : ((g.tokens g.listed).map (·.identity)).Nodup := by
    rw [tokens, List.map_filterMap]
    refine h.once.filterMap fun i j x hi hj => ?_
    obtain ⟨t, ht, rfl⟩ := Option.map_eq_some_iff.1 hi
    obtain ⟨u, hu, hx⟩ := Option.map_eq_some_iff.1 hj
    exact h.distinct i j t u ht hu hx.symm
  have hmap : ((g.queries g.listed).map fun q => (q.1, q.2.identity)) =
      ((g.tokens g.listed).map (·.identity)).flatMap fun x => g.search.categories.map (·, x) := by
    simp [queries, List.map_flatMap, List.flatMap_map, Function.comp_def]
  rw [hmap, List.nodup_flatMap]
  refine ⟨fun x _ => (Search.nodup_categories g.search).map fun _ _ h => congrArg Prod.fst h, ?_⟩
  refine List.Pairwise.imp (fun hne => ?_) hidentities
  rintro q hq hq'
  obtain ⟨_, -, rfl⟩ := List.mem_map.1 hq
  obtain ⟨_, -, heq⟩ := List.mem_map.1 hq'
  exact hne (congrArg Prod.snd heq).symm

theorem Consulted.nodup (h : g.Consulted p qs) (hw : g.WellFormed) : (qs.map fun q => (q.1, q.2.identity)).Nodup :=
  hw.nodup_queries.sublist ((h.isPrefix hw.leveled).sublist.map _)

/-- A node of a level that is not the last one is on a level below that one. -/
theorem WellFormed.levelOf_lower (h : g.WellFormed) {i : NodeId} (hi : i ∈ g.lower) : g.levelOf i + 1 < g.levelCount := by
  obtain ⟨k, ids, hk, hmem⟩ := mem_flatten_iff.1 hi
  rw [List.getElem?_dropLast] at hk
  split at hk
  · next hlt =>
    have hlevel : g.level? k = some ids := by rwa [level?, ← Array.getElem?_toList]
    rw [(h.listed k ids hlevel i hmem).2]
    rw [Array.length_toList] at hlt
    show k + 1 < g.levels.size
    omega
  · cases hk

/-- A graph that was asked for levels below `m` only: it has no others, but the one that an expansion of the last of them found. -/
structure Within (m : Nat) (g : LevelGraph) : Prop where
  more : g.more = true → g.levelCount ≤ m + 1
  noMore : g.more = false → g.levelCount ≤ m

/-- What was asked about is on a level below `m`. -/
theorem Consulted.levelOf_lt {m : Nat} (h : g.Consulted p qs) (hw : g.WellFormed) (hm : g.Within m) {q : Category × Token}
    (hq : q ∈ qs) : ∃ i, g.token? i = some q.2 ∧ g.levelOf i < m := by
  cases hmore : g.more with
  | true =>
    rw [(h.of_more hmore).2] at hq
    obtain ⟨i, hi, ht⟩ := exists_token?_of_mem_queries hq
    have hlower := hw.levelOf_lower hi
    have hle := hm.more hmore
    exact ⟨i, ht, by omega⟩
  | false =>
    obtain ⟨i, hi, ht⟩ := exists_token?_of_mem_queries ((h.isPrefix hw.leveled).subset hq)
    have hlisted := (hw.lt_size_of_listed hi).2
    have hle := hm.noMore hmore
    exact ⟨i, ht, by omega⟩

section Expanded

variable (hw : g.WellFormed) (hsearch : g'.search = g.search) (htoken : ∀ i < g.size, g'.token? i = g.token? i)

include hw hsearch htoken

theorem queries_of_listed {ids : List NodeId} (h : ∀ i ∈ ids, i ∈ g.listed) : g'.queries ids = g.queries ids :=
  queries_congr hsearch fun i hi => htoken i (hw.lt_size_of_listed (h i hi)).1

/-- After an expansion that was answered: a level was found, or none and then there are no more. -/
theorem consulted_of_answered
    (hlevels : (g'.more = true ∧ ∃ ids, g'.levels = g.levels.push ids) ∨ (g'.more = false ∧ g'.levels = g.levels)) :
    g'.Consulted False (g.queries g.lower ++ g.queries g.frontier) := by
  have hall : g.queries g.lower ++ g.queries g.frontier = g'.queries g.listed := by
    rw [queries_of_listed hw hsearch htoken fun _ hi => hi, listed_eq hw.leveled, queries_append]
  rw [hall]
  rcases hlevels with ⟨hmore, ids, hpush⟩ | ⟨hmore, hsame⟩
  · have hlower : g'.lower = g.listed := by rw [lower, hpush, Array.toList_push, List.dropLast_concat, listed]
    exact hlower ▸ .lower id hmore
  · have hlisted : g'.listed = g.listed := by rw [listed, hsame, listed]
    exact hlisted ▸ .listed id hmore

/-- After an expansion that failed: the levels are those from before, and there are no more. -/
theorem consulted_of_failed (hmore : g'.more = false) (hlevels : g'.levels = g.levels) (hasked : asked <+: g.queries g.frontier) :
    g'.Consulted True (g.queries g.lower ++ asked) := by
  have hlower : g'.lower = g.lower := by rw [lower, hlevels, lower]
  have hfrontier : g'.frontier = g.frontier := by rw [frontier, hlevels, frontier]
  have hmem : ∀ i, i ∈ g.lower ∨ i ∈ g.frontier → i ∈ g.listed := fun i hi => by rwa [listed_eq hw.leveled, List.mem_append]
  rw [← queries_of_listed hw hsearch htoken fun i hi => hmem i (Or.inr hi), ← hfrontier] at hasked
  rw [← queries_of_listed hw hsearch htoken fun i hi => hmem i (Or.inl hi), ← hlower]
  exact .failed trivial hmore hasked

end Expanded

end LevelGraph

namespace Growing

open LevelGraph

variable {σ : Type} [Sources σ] {s s' : Growing (Noted σ)} {x : Except Error Unit}

/-- The failure of a source. -/
def BySource {α : Type} (x : Except Error α) : Prop := ∃ e, x = .error e ∧ e.OfSource

theorem not_bySource_ok {α : Type} (a : α) : ¬BySource (.ok a) := fun ⟨_, he, _⟩ => nomatch he

theorem not_bySource_tooDeep {α : Type} (root : String) (limit : Nat) :
    ¬BySource (.error (.tooDeep root limit) : Except Error α) := by
  rintro ⟨e, he, hsource⟩
  cases he
  exact hsource.ne_tooDeep _ _ rfl

/-- A call that ends with `x` ends as its questions do: with the failure of a source exactly if one of them failed, and with that one. -/
def EndsAs {α : Type} (x : Except Error α) (y : Except Error Unit) : Prop := ∀ e, y = .error e ↔ x = .error e ∧ e.OfSource

theorem endsAs_ok {α : Type} {x : Except Error α} (h : ¬BySource x) : EndsAs x (.ok ()) := by
  intro e
  constructor
  · intro he
    cases he
  · intro he
    exact absurd ⟨e, he⟩ h

theorem endsAs_error {α : Type} {e : Error} (h : e.OfSource) : EndsAs (.error e : Except Error α) (.error e) := by
  intro e'
  constructor
  · intro he
    cases he
    exact ⟨rfl, h⟩
  · intro he
    exact congrArg Except.error (Except.error.inj he.1)

/-- What a call asks: it ends as its questions do, and afterwards the questions are those about the levels that were expanded. -/
structure Consults (broken : Prop) (s : Growing (Noted σ)) (x : Except Error Unit) (s' : Growing (Noted σ)) : Prop where
  queried : ∃ asked y, Context.Queried s.context asked y s'.context ∧ EndsAs x y
  consulted : s'.graph.Consulted (broken ∨ BySource x) s'.context.sources.questions

/-- What an expansion does to the levels and to what was known. -/
theorem expand_levels (hw : s.graph.WellFormed) (hle : s.graph.levelCount ≤ maxLevel + 1) (hr : expand s = (x, s')) :
    s'.graph.search = s.graph.search ∧ (∀ i < s.graph.size, s'.graph.token? i = s.graph.token? i) ∧
      ((x = .ok () ∧ s'.graph.more = true ∧ ∃ ids, s'.graph.levels = s.graph.levels.push ids) ∨
        (s'.graph.more = false ∧ s'.graph.levels = s.graph.levels)) := by
  cases x with
  | error e =>
    have hrising := ((expand_outcome hw).of_error rfl hr).resolve_left fun h => (expand_fails hle hr).ne_tooDeep _ _ h.1
    exact ⟨hrising.ext.search, hrising.ext.token, Or.inr ⟨hrising.ext.more, hrising.ext.levels⟩⟩
  | ok u =>
    obtain ⟨-, g', hrising, hg⟩ := (expand_outcome hw).of_ok rfl hr
    have hsame : s'.graph.search = s.graph.search ∧ ∀ i < s.graph.size, s'.graph.token? i = s.graph.token? i := by
      obtain ⟨levels, more, hclose⟩ := g'.exists_closeLevel_eq s.graph.size
      rw [hg, hclose]
      exact ⟨hrising.ext.search, hrising.ext.token⟩
    refine ⟨hsame.1, hsame.2, ?_⟩
    rw [hg]
    rcases hrising.closeLevel_cases with ⟨hmore, -, hlevels⟩ | hquiet
    · exact Or.inl ⟨rfl, hmore, _, hlevels⟩
    · rw [hquiet]
      exact Or.inr ⟨rfl, rfl⟩

/-- An expansion asks about the last level, unless it is refused. -/
theorem expand_consults (hw : s.graph.WellFormed) (hoff : s.context.cache.settings.enabled = false)
    (hq : s.context.sources.questions = s.graph.queries s.graph.lower)
    (hmore : s.graph.more = true ∨ s.graph.levelCount ≤ maxLevel + 1) (hr : expand s = (x, s')) : Consults False s x s' := by
  by_cases hle : s.graph.levelCount ≤ maxLevel + 1
  · obtain ⟨hsearch, htoken, hlevels⟩ := expand_levels hw hle hr
    have hasking := Context.asking_askAll hoff (s.graph.lookups s.graph.frontier)
    rw [flatMap_lookups] at hasking
    obtain ⟨_, c', hasked, hqueried⟩ | ⟨e, c', hasked, asked, hprefix, hqueried⟩ := hasking.outcome rfl
    · obtain ⟨rfl, rfl⟩ : x = .ok () ∧ s'.context = c' := by simpa [hr, hasked] using expand_askAll hw hle
      have hnot := not_bySource_ok ()
      refine ⟨⟨_, _, hqueried, endsAs_ok hnot⟩, ?_⟩
      rw [hqueried.questions, hq]
      exact (consulted_of_answered hw hsearch htoken (hlevels.imp_left And.right)).congr (by simpa using hnot)
    · obtain ⟨rfl, rfl⟩ : x = .error e ∧ s'.context = c' := by simpa [hr, hasked] using expand_askAll hw hle
      have hsource : BySource (.error e : Except Error Unit) := ⟨e, rfl, expand_fails hle hr⟩
      obtain ⟨hmore', hsame⟩ := hlevels.resolve_left fun h => nomatch h.1
      refine ⟨⟨asked, _, hqueried, endsAs_error (expand_fails hle hr)⟩, ?_⟩
      rw [hqueried.questions, hq]
      exact (consulted_of_failed hw hsearch htoken hmore' hsame hprefix).congr (by simpa using hsource)
  · rw [expand_of_deep (Nat.lt_of_not_le hle)] at hr
    cases hr
    have hnot := @not_bySource_tooDeep Unit s.graph.root.display maxLevel
    refine ⟨⟨[], .ok (), Context.Queried.refl _, endsAs_ok hnot⟩, ?_⟩
    rw [hq]
    exact .lower (fun hbroken => hbroken.elim id hnot) (hmore.resolve_right hle)

variable {broken : Prop} {s₁ : Growing (Noted σ)}

theorem Consults.refl (h : s.graph.Consulted broken s.context.sources.questions) : Consults broken s (.ok ()) s where
  queried := ⟨[], .ok (), Context.Queried.refl _, endsAs_ok (not_bySource_ok ())⟩
  consulted := h.congr (by simpa using fun hx => absurd hx (not_bySource_ok ()))

/-- A call that goes on where another one ended asks the questions of both. -/
theorem Consults.trans (h : Consults broken s (.ok ()) s₁) (h' : Consults broken s₁ x s') : Consults broken s x s' where
  queried := by
    obtain ⟨asked, y, hqueried, hy⟩ := h.queried
    obtain ⟨more, z, hmore, hz⟩ := h'.queried
    cases y with
    | error e => cases ((hy e).1 rfl).1
    | ok u => exact ⟨asked ++ more, z, hqueried.trans hmore, hz⟩
  consulted := h'.consulted

/-- A state between two calls: a well-formed graph, no cache, and the questions that the graph accounts for. -/
structure Poised (broken : Prop) (s : Growing (Noted σ)) : Prop where
  wellFormed : s.graph.WellFormed
  off : s.context.cache.settings.enabled = false
  consulted : s.graph.Consulted broken s.context.sources.questions

/-- One expansion, and then more: if those ask about what they expand, then so does all of it. -/
theorem pursue_consults {m : Nat} (hw : s.graph.WellFormed) (hoff : s.context.cache.settings.enabled = false)
    (hq : s.context.sources.questions = s.graph.queries s.graph.lower)
    (hmore : s.graph.more = true ∨ s.graph.levelCount ≤ maxLevel + 1)
    (hrest : ∀ (s₁ : Growing (Noted σ)) x s', Poised False s₁ → expandTimes m s₁ = (x, s') → Consults False s₁ x s')
    (hr : pursue m s = (x, s')) : Consults False s x s' := by
  rcases hexpand : (expand : Run (Growing (Noted σ)) Unit) s with ⟨e | u, s₁⟩
  · rw [pursue, Act.bind_of_error hexpand] at hr
    cases hr
    exact expand_consults hw hoff hq hmore hexpand
  · rw [pursue, Act.bind_of_ok hexpand] at hr
    have hfirst := expand_consults hw hoff hq hmore hexpand
    obtain ⟨_, _, hqueried, -⟩ := hfirst.queried
    have hpoised : Poised False s₁ :=
      ⟨keeps_wellFormed_expand.of_eq hw hexpand, hqueried.cache ▸ hoff, hfirst.consulted.congr (by simpa using not_bySource_ok ())⟩
    exact hfirst.trans (hrest s₁ x s' hpoised hr)

/-- Looking for more levels asks about those that are expanded. After a failure nothing is asked. -/
theorem expandTimes_consults {k : Nat} (hs : Poised broken s) (hr : expandTimes k s = (x, s')) : Consults broken s x s' := by
  induction k generalizing s broken x s' with
  | zero =>
    cases hr
    exact .refl hs.consulted
  | succ k ih =>
    cases hmore : s.graph.more with
    | false =>
      rw [expandTimes_of_not_more hmore] at hr
      cases hr
      exact .refl hs.consulted
    | true =>
      obtain ⟨hbroken, hq⟩ := hs.consulted.of_more hmore
      obtain rfl : broken = False := propext (iff_false_intro hbroken)
      rw [expandTimes_of_more hmore] at hr
      exact pursue_consults hs.wellFormed hs.off hq (Or.inl hmore) (fun s₁ x s' h hr => ih h hr) hr

/-! ## How far a graph looks -/

/-- An expansion of a level below `m` finds no level above `m`. -/
theorem expand_within {m : Nat} (hw : s.graph.WellFormed) (hm : s.graph.levelCount ≤ m) (hr : expand s = (x, s')) :
    s'.graph.Within m := by
  by_cases hle : s.graph.levelCount ≤ maxLevel + 1
  · obtain ⟨-, -, ⟨-, hmore, ids, hlevels⟩ | ⟨hmore, hlevels⟩⟩ := expand_levels hw hle hr
    · have hcount : s'.graph.levelCount = s.graph.levelCount + 1 := by rw [levelCount, hlevels, Array.size_push, levelCount]
      exact ⟨fun _ => by omega, fun hno => by rw [hmore] at hno; cases hno⟩
    · have hcount : s'.graph.levelCount = s.graph.levelCount := congrArg Array.size hlevels
      exact ⟨fun _ => by omega, fun _ => by omega⟩
  · rw [expand_of_deep (Nat.lt_of_not_le hle)] at hr
    cases hr
    exact ⟨fun _ => by omega, fun _ => hm⟩

/-- Looking for levels up to `n` expands none at `n` or above. -/
theorem expandTimes_within {k m n : Nat} (hw : s.graph.WellFormed) (hm : s.graph.Within m) (hn : n ≤ m)
    (hk : k ≤ n + 1 - s.graph.levelCount) (hr : expandTimes k s = (x, s')) : s'.graph.Within m := by
  induction k generalizing s with
  | zero =>
    cases hr
    exact hm
  | succ k ih =>
    cases hmore : s.graph.more with
    | false =>
      rw [expandTimes_of_not_more hmore] at hr
      cases hr
      exact hm
    | true =>
      rw [expandTimes_of_more hmore] at hr
      rcases hexpand : (expand : Run (Growing (Noted σ)) Unit) s with ⟨e | u, s₁⟩
      · rw [pursue, Act.bind_of_error hexpand] at hr
        cases hr
        exact expand_within hw (by omega) hexpand
      · rw [pursue, Act.bind_of_ok hexpand] at hr
        have hwithin : s₁.graph.Within m := expand_within hw (by omega) hexpand
        obtain ⟨hw₁, -, ⟨-, -, hlevels⟩ | hquiet⟩ := expand_ok_cases hw hexpand
        · have hcount : s₁.graph.levelCount = s.graph.levelCount + 1 := by rw [levelCount, hlevels, Array.size_push, levelCount]
          exact ih hw₁ hwithin (by omega) hr
        · have hno : s₁.graph.more = false := congrArg LevelGraph.more hquiet
          rw [expandTimes_of_not_more hno] at hr
          cases hr
          exact hwithin

/-- To ask for a level is to look for levels up to it. -/
theorem level?_eq (n : Nat) (s : Growing (Noted σ)) :
    level? n s = ((expandTimes (n + 1 - s.graph.levelCount) s).1.map fun _ =>
      (expandTimes (n + 1 - s.graph.levelCount) s).2.graph.level? n, (expandTimes (n + 1 - s.graph.levelCount) s).2) := by
  rw [level?, Act.bind_of_ok (Act.get_apply s)]
  rcases hr : (expandTimes (n + 1 - s.graph.levelCount) : Run (Growing (Noted σ)) Unit) s with ⟨e | u, s'⟩
  · rw [Act.bind_of_error hr]
    rfl
  · rw [Act.bind_of_ok hr]
    rfl

end Growing

namespace LevelGraph

open Growing

variable {σ : Type} [Sources σ] {c₀ : Context (Noted σ)} {scope : Scope} {search : Search} {root : Token} {broken : Prop} {ns : List Nat}
  {s s' : Growing (Noted σ)}

/-- What is known of a graph that is browsed: what was asked, and how far. -/
structure Browsed (m : Nat) (broken : Prop) (s : Growing (Noted σ)) : Prop extends Poised broken s where
  within : s.graph.Within m

/-- A call for a level asks about the levels that it expands. -/
theorem Browsed.level? {m n : Nat} {x : Except Error (Option (List NodeId))} (h : Browsed m broken s) (hn : n ≤ m)
    (hr : Growing.level? n s = (x, s')) :
    Browsed m (broken ∨ BySource x) s' ∧
      ∃ asked y, Context.Queried s.context asked y s'.context ∧ EndsAs x y := by
  rcases htimes : (expandTimes (n + 1 - s.graph.levelCount) : Run (Growing (Noted σ)) Unit) s with ⟨z, s₁⟩
  rw [level?_eq, htimes] at hr
  cases hr
  have hconsults := expandTimes_consults h.toPoised htimes
  have hsource : ∀ e, (z.map fun _ => s₁.graph.level? n) = .error e ↔ z = .error e := fun e => by cases z <;> simp [Except.map]
  have hby : BySource (z.map fun _ => s₁.graph.level? n) ↔ BySource z := by simp only [BySource, hsource]
  obtain ⟨asked, y, hqueried, hy⟩ := hconsults.queried
  refine ⟨⟨⟨?_, hqueried.cache ▸ h.off, hconsults.consulted.congr (or_congr_right hby.symm)⟩, ?_⟩, asked, y, hqueried, fun e => ?_⟩
  · exact (keeps_expandTimes keeps_wellFormed_expand _).of_eq h.wellFormed htimes
  · exact expandTimes_within h.wellFormed h.within hn (Nat.le_refl _) htimes
  · rw [hy, hsource]

omit [Sources σ] in
/-- A bound on the levels that were asked about can be raised. -/
theorem Browsed.mono {m m' : Nat} (h : Browsed m broken s) (hm : m ≤ m') : Browsed m' broken s :=
  ⟨h.toPoised, ⟨fun hmore => Nat.le_trans (h.within.more hmore) (Nat.succ_le_succ hm),
    fun hmore => Nat.le_trans (h.within.noMore hmore) hm⟩⟩

/-- A graph that was begun lazily in a context and was then asked for levels, the last one first. Where a call failed the graph goes on as
the call left it, and `broken` says that a source was the reason. -/
inductive Browsing (c₀ : Context (Noted σ)) (scope : Scope) (search : Search) (root : Token) :
    List Nat → Prop → Growing (Noted σ) → Prop where
  | built {g : LevelGraph} {c : Context (Noted σ)} :
      build scope search root true c₀ = (.ok g, c) → Browsing c₀ scope search root [] False ⟨g, c⟩
  | asked {ns : List Nat} {broken : Prop} {s s' : Growing (Noted σ)} {x : Except Error (Option (List NodeId))} (n : Nat) :
      Browsing c₀ scope search root ns broken s → Growing.level? n s = (x, s') →
      Browsing c₀ scope search root (n :: ns) (broken ∨ BySource x) s'

section Building

variable (hoff : c₀.cache.settings.enabled = false) (hnone : c₀.sources.questions = [])

include hoff hnone

/-- The building of a graph asks about the levels that it expands. -/
theorem build_consults (onlyOne : Bool) {x : Except Error Unit}
    (h : (if onlyOne then expand else expandAll : Run (Growing (Noted σ)) Unit)
      ⟨start scope search root, begun search root onlyOne c₀⟩ = (x, s)) :
    Consults False ⟨start scope search root, begun search root onlyOne c₀⟩ x s := by
  have hw := wellFormed_start scope search root
  have hle : (start scope search root).levelCount ≤ maxLevel + 1 := Nat.succ_le_succ (Nat.zero_le _)
  cases onlyOne with
  | true => exact expand_consults hw hoff hnone (Or.inr hle) h
  | false => exact pursue_consults hw hoff hnone (Or.inr hle) (fun s₁ x s' hs hr => expandTimes_consults hs hr) h

/-- A lazy graph that was built has asked about its root only. -/
theorem browsed_build {g : LevelGraph} {c : Context (Noted σ)} (hb : build scope search root true c₀ = (.ok g, c)) :
    Browsed 1 False ⟨g, c⟩ := by
  rcases hr : (expand : Run (Growing (Noted σ)) Unit) ⟨start scope search root, begun search root true c₀⟩ with ⟨x, s⟩
  have hconsults := build_consults hoff hnone true hr
  obtain ⟨hx, hsources, hcache⟩ := build_eq_of_expansion true hr
  rw [hb] at hx hsources hcache
  have hstart := wellFormed_start scope search root
  have hcount : (start scope search root).levelCount ≤ 1 := Nat.le_refl 1
  have hwithin : s.graph.Within 1 := expand_within hstart hcount hr
  have hw : s.graph.WellFormed := keeps_wellFormed_expand.of_eq hstart hr
  cases x with
  | error e => cases hx
  | ok u =>
    cases hx
    obtain ⟨_, _, hqueried, -⟩ := hconsults.queried
    refine ⟨⟨hw, ?_, ?_⟩, hwithin⟩
    · show c.cache.settings.enabled = false
      rw [hcache, hqueried.cache]
      exact hoff
    · show s.graph.Consulted False c.sources.questions
      rw [hsources]
      exact hconsults.consulted.congr (by simpa using not_bySource_ok ())

theorem Browsing.browsed (h : Browsing c₀ scope search root ns broken s) : Browsed (ns.foldr max 1) broken s := by
  induction h with
  | built hb => exact browsed_build hoff hnone hb
  | asked n _ hr ih => exact ((ih.mono (Nat.le_max_right n _)).level? (Nat.le_max_left n _) hr).1

end Building

/-- What sources are asked for one graph where nothing is cached. The building of a graph, complete or lazy, ends as its expansion does,
and so does every call for a level that follows on a lazy graph. What was asked so far are the questions about the levels that were
expanded, level by level and node by node in each category that the graph follows, up to the first failure; those of a complete graph
are all levels. Nothing is asked twice about one object in one category. A lazy graph was asked about no level at or above the largest
one that was looked for, but always about its root. Each call ends with the failure of a source exactly if the last question that it
asked failed, and it is that failure. -/
theorem queries_disciplined (c₀ : Context (Noted σ)) (hoff : c₀.cache.settings.enabled = false) (hnone : c₀.sources.questions = [])
    (scope : Scope) (search : Search) (root : Token) :
    (∀ onlyOne : Bool, ∃ x s,
      (if onlyOne then expand else expandAll : Run (Growing (Noted σ)) Unit)
        ⟨start scope search root, begun search root onlyOne c₀⟩ = (x, s) ∧
      (build scope search root onlyOne c₀).1 = (x.map fun _ => s.graph) ∧
      (build scope search root onlyOne c₀).2.sources = s.context.sources ∧
      s.graph.Consulted (BySource x) s.context.sources.questions ∧
      (s.context.sources.questions.map fun q => (q.1, q.2.identity)).Nodup ∧
      (onlyOne = false → x = .ok () → s.graph.more = false) ∧
      (onlyOne = true → ∀ q ∈ s.context.sources.questions, ∃ i, s.graph.token? i = some q.2 ∧ s.graph.levelOf i < 1) ∧
      ∃ y, Sources.Replies c₀.sources.sources s.context.sources.questions y s.context.sources.sources ∧ EndsAs x y) ∧
    ∀ ns broken s, Browsing c₀ scope search root ns broken s →
      s.graph.Consulted broken s.context.sources.questions ∧
      (s.context.sources.questions.map fun q => (q.1, q.2.identity)).Nodup ∧
      (∀ q ∈ s.context.sources.questions, ∃ i, s.graph.token? i = some q.2 ∧ s.graph.levelOf i < ns.foldr max 1) ∧
      ∀ n x s', Growing.level? n s = (x, s') → ∃ asked y,
        s'.context.sources.questions = s.context.sources.questions ++ asked ∧
        Sources.Replies s.context.sources.sources asked y s'.context.sources.sources ∧ EndsAs x y := by
  refine ⟨fun onlyOne => ?_, fun ns broken s h => ?_⟩
  · rcases hr : (if onlyOne then expand else expandAll : Run (Growing (Noted σ)) Unit)
      ⟨start scope search root, begun search root onlyOne c₀⟩ with ⟨x, s⟩
    have hconsults := build_consults hoff hnone onlyOne hr
    obtain ⟨hx, hsources, -⟩ := build_eq_of_expansion onlyOne hr
    obtain ⟨asked, y, hqueried, hy⟩ := hconsults.queried
    have hasked : s.context.sources.questions = asked := by
      rw [hqueried.questions]
      exact congrArg (· ++ asked) hnone
    have hconsulted : s.graph.Consulted (BySource x) s.context.sources.questions := hconsults.consulted.congr (by simp)
    have hstart := wellFormed_start scope search root
    have hw : s.graph.WellFormed := by
      cases onlyOne with
      | true => exact keeps_wellFormed_expand.of_eq hstart hr
      | false => exact (keeps_expandAll keeps_wellFormed_expand).of_eq hstart hr
    refine ⟨x, s, rfl, hx, hsources, hconsulted, hconsulted.nodup hw, ?_, ?_, y, hasked ▸ hqueried.replies, hy⟩
    · rintro rfl rfl
      exact more_of_expandAll (guarded_start scope search root) hr
    · rintro rfl q hq
      have hcount : (start scope search root).levelCount ≤ 1 := Nat.le_refl 1
      exact hconsulted.levelOf_lt hw (expand_within hstart hcount hr) hq
  · have hb := h.browsed hoff hnone
    refine ⟨hb.consulted, hb.consulted.nodup hb.wellFormed, fun q hq => hb.consulted.levelOf_lt hb.wellFormed hb.within hq,
      fun n x s' hr => ?_⟩
    obtain ⟨-, asked, y, hqueried, hy⟩ := (hb.mono (Nat.le_max_right n _)).level? (Nat.le_max_left n _) hr
    exact ⟨asked, y, hqueried.questions, hqueried.replies, hy⟩

/-- Three pages in a row, looked at from the first. The fifth question fails, which is the second one about level 1, so level 2 is not
found and nothing is asked about it. -/
theorem queries_disciplined_row :
    let a := Token.element "page" "site" "1"
    let b := Token.element "page" "site" "2"
    let c := Token.element "page" "site" "3"
    let start := Context.noting (⟨Ancestry.ofTables ((Listing.empty.add a b).add b c) Hooks.empty, [4], 0⟩ : Faulty)
    let fault : Error := .sourceFailed .auxiliary b.display "unavailable"
    ∃ s s' : Growing (Noted Faulty), Browsing start none .both a [] False s ∧ Growing.level? 2 s = (.error fault, s') ∧
      s'.context.sources.questions = [(.native, a), (.auxiliary, a), (.hooking, a), (.native, b), (.auxiliary, b)] ∧
      s'.graph.Consulted True s'.context.sources.questions ∧
      ∃ asked, s'.context.sources.questions = s.context.sources.questions ++ asked ∧
        Sources.Replies s.context.sources.sources asked (.error fault) s'.context.sources.sources := by
  intro a b c start fault
  have hview : ((build none .both a true start).1.toOption.map fun g =>
      let call := Growing.level? 2 (⟨g, (build none .both a true start).2⟩ : Growing (Noted Faulty))
      (call.1, call.2.context.sources.questions)) =
      some (.error fault, [(.native, a), (.auxiliary, a), (.hooking, a), (.native, b), (.auxiliary, b)]) := by decide +kernel
  obtain ⟨g, c', hb, hg⟩ := Act.exists_of_map_eq_some hview
  rw [hb] at hg
  obtain ⟨hx, hquestions⟩ : _ ∧ _ := by simpa using hg
  have hbuilt : Browsing start none .both a [] False ⟨g, c'⟩ := .built hb
  have hcall : Growing.level? 2 (⟨g, c'⟩ : Growing (Noted Faulty)) = (.error fault, _) := Prod.ext hx rfl
  have hsource : fault.OfSource := ⟨_, _, _, rfl⟩
  have hdiscipline := (queries_disciplined start rfl rfl none .both a).2
  obtain ⟨-, -, -, hcalls⟩ := hdiscipline _ _ _ hbuilt
  obtain ⟨asked, y, hasked, hreplies, hy⟩ := hcalls 2 _ _ hcall
  have hfault : y = .error fault := (hy fault).2 ⟨rfl, hsource⟩
  obtain ⟨hconsulted, -⟩ := hdiscipline _ _ _ (.asked 2 hbuilt hcall)
  have hbroken : False ∨ BySource (.error fault : Except Error (Option (List NodeId))) ↔ True :=
    iff_true_intro (Or.inr ⟨fault, rfl, hsource⟩)
  exact ⟨_, _, hbuilt, hcall, hquestions, hconsulted.congr hbroken, asked, hasked, hfault ▸ hreplies⟩

end LevelGraph
end Lineage
