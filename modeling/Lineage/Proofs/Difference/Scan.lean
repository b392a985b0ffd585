import Lineage.Proofs.Difference.Chains
import Lineage.Proofs.Graph.Calls
import Mathlib.Algebra.Order.BigOperators.Group.List
import Mathlib.Algebra.Order.Group.Nat

/-!
# The difference of two graphs, found by walking

The ways down two graphs need not be written down to see where they part: two nodes walk down in lock-step for as long as they match. Every
top of one graph is held against every top of the other, and the lowest node at which a walk ends is kept. What is above a place is searched
with a stack. None of these loops has a bound of its own, so here each has a number of steps that it may take, and nothing comes of it
if that does not suffice. In trees every loop ends: each step down leads to a smaller number, and each node is put on the stack as often as
it is above a place. What is found is what the ways down say.
-/

namespace Lineage

open LevelGraph

namespace Difference

variable {before after left right g : LevelGraph} {i j n top : Nat} {p q : Place} {ps found : List Place}

/-! ## The loops -/

/-- Goes down in both graphs while the children match: the first child in the left graph that does not, if it is not the end of the way. -/
def walk (left right : LevelGraph) : Nat → NodeId → NodeId → Option (Option NodeId)
  | 0, _, _ => none
  | n + 1, i, j =>
    match left.child? i with
    | none => some none
    | some c =>
      match right.child? j with
      | none => some (some c)
      | some d => if Place.same ⟨left, c⟩ ⟨right, d⟩ then walk left right n c d else some (some c)

/-- The walk down from two top nodes, if they match. -/
def divergence (left right : LevelGraph) (n : Nat) (top other : NodeId) : Option (Option NodeId) :=
  if Place.same ⟨left, top⟩ ⟨right, other⟩ then walk left right n top other else some none

/-- The lower one of two nodes, the first one if they are on one level. -/
def lower (g : LevelGraph) (best : Option NodeId) (i : NodeId) : Option NodeId :=
  if best.all (g.levelOf i < g.levelOf ·) then some i else best

/-- The lowest node at which a walk from a top node ends, whatever top of the other graph it is held against. -/
def lowest (left right : LevelGraph) (n : Nat) (top : NodeId) : Option (Option NodeId) :=
  right.tops.foldlM (fun best other => (divergence left right n top other).map fun
    | none => best
    | some i => lower left best i) none

/-- Adds the places at which the walks from all top nodes of one graph end. -/
def collect (left right : LevelGraph) (n : Nat) (found : List Place) : Option (List Place) :=
  left.tops.foldlM (fun found top => (lowest left right n top).map fun
    | none => found
    | some i => addPlace found ⟨left, i⟩) found

/-- Whether a place names what is on a stack or above it. The node on top is taken off, and its parents are put on, the last one on top. -/
def searchAbove (g : LevelGraph) (q : Place) : Nat → List NodeId → Option Bool
  | _, [] => some false
  | 0, _ :: _ => none
  | n + 1, i :: stack => if q.same ⟨g, i⟩ then some true else searchAbove g q n ((g.parents i).reverse ++ stack)

/-- The places above which no other place is found. -/
def dropCovered (n : Nat) (ps : List Place) : Option (List Place) :=
  ps.filterM fun p => (ps.anyM fun q : Place =>
    if q.same p then some false else searchAbove p.graph q n (p.graph.parents p.id).reverse).map (!·)

/-- The tokens to show anew, each once, if the steps suffice. -/
def scan (n : Nat) (before after : LevelGraph) : Option (List Token) := do
  let found ← collect before after n []
  let found ← collect after before n found
  let kept ← (if 1 < found.length then dropCovered n found else some found)
  pure (Token.distinct (kept.flatMap Place.parentTokens))

/-! ## Loops over lists in which no step is missing -/

section Loops

variable {α β : Type}

theorem foldlM_eq_some {f : β → α → Option β} {F : β → α → β} {as : List α} (h : ∀ b, ∀ a ∈ as, f b a = some (F b a)) (b : β) :
    as.foldlM f b = some (as.foldl F b) := by
  induction as generalizing b with
  | nil => rfl
  | cons a as ih =>
    rw [List.foldlM_cons, h b a List.mem_cons_self]
    exact ih (fun b a ha => h b a (List.mem_cons_of_mem _ ha)) (F b a)

theorem anyM_eq_some {f : α → Option Bool} {F : α → Bool} {as : List α} (h : ∀ a ∈ as, f a = some (F a)) :
    as.anyM f = some (as.any F) := by
  induction as with
  | nil => rfl
  | cons a as ih =>
    rw [List.anyM, h a List.mem_cons_self, List.any_cons]
    cases F a with
    | true => rfl
    | false => exact ih fun a ha => h a (List.mem_cons_of_mem _ ha)

theorem filterM_eq_some {f : α → Option Bool} {F : α → Bool} {as : List α} (h : ∀ a ∈ as, f a = some (F a)) :
    as.filterM f = some (as.filter F) := by
  have haux : ∀ kept, as.filterAuxM f kept = some ((as.filter F).reverse ++ kept) := by
    induction as with
    | nil => exact fun _ => rfl
    | cons a as ih =>
      intro kept
      have ih := ih fun a ha => h a (List.mem_cons_of_mem _ ha)
      rw [List.filterAuxM, h a List.mem_cons_self]
      cases ha : F a with
      | true =>
        rw [List.filter_cons_of_pos ha, List.reverse_cons, List.append_assoc]
        exact ih (a :: kept)
      | false =>
        rw [List.filter_cons_of_neg (by simp [ha])]
        exact ih kept
  rw [List.filterM, haux]
  simp

end Loops

/-! ## Walking down -/

/-- A walk ends where the ways down part. -/
theorem walk_eq (hl : left.Tree) (hr : right.Tree) (hn : i < n) :
    walk left right n i j = some (partedFrom left right (left.chain i).tail (right.chain j).tail) := by
  induction n generalizing i j with
  | zero => omega
  | succ n ih =>
    rw [walk]
    cases hc : left.child? i with
    | none =>
      rw [left.chain_of_bottom hc]
      rfl
    | some c =>
      have hlt := hl.lt_of_child? hc
      obtain ⟨is, his⟩ := left.exists_chain_eq_cons c
      rw [hl.chain_of_child hc, List.tail_cons, his]
      cases hd : right.child? j with
      | none =>
        rw [right.chain_of_bottom hd]
        rfl
      | some d =>
        obtain ⟨js, hjs⟩ := right.exists_chain_eq_cons d
        rw [hr.chain_of_child hd, List.tail_cons, hjs, partedFrom]
        dsimp only
        split
        · rw [ih (by omega), his, hjs, List.tail_cons, List.tail_cons]
        · rfl

/-- Two tops that match part where their ways down do. -/
theorem divergence_eq (hl : left.Tree) (hr : right.Tree) (hn : top < n) (other : NodeId) :
    divergence left right n top other = some (if Matches left right top other then
      partedFrom left right (left.chain top) (right.chain other) else none) := by
  by_cases h : Matches left right top other
  · obtain ⟨is, his⟩ := left.exists_chain_eq_cons top
    obtain ⟨js, hjs⟩ := right.exists_chain_eq_cons other
    rw [if_pos h, his, hjs, partedFrom]
    refine (if_pos h).trans ((walk_eq hl hr hn).trans (congrArg some ?_))
    rw [his, hjs]
    exact (if_pos h).symm
  · rw [if_neg h]
    exact if_neg h

/-- The lowest of nodes that are all the same is that node. -/
theorem foldl_lower {is : List NodeId} {o : Option NodeId} (h : ∀ i, i ∈ is ↔ o = some i) : is.foldl (lower left) none = o := by
  cases o with
  | none =>
    rw [List.eq_nil_iff_forall_not_mem.2 fun i hi => nomatch (h i).1 hi]
    rfl
  | some a =>
    have hsame : ∀ n, (List.replicate n a).foldl (lower left) (some a) = some a := fun n => by
      induction n with
      | zero => rfl
      | succ n ih =>
        have hlower : lower left (some a) a = some a := by simp [lower]
        rw [List.replicate_succ, List.foldl_cons, hlower, ih]
    obtain ⟨n, hn⟩ : ∃ n, is.length = n + 1 := ⟨is.length - 1, by have := List.length_pos_of_mem ((h a).2 rfl); omega⟩
    rw [List.eq_replicate_of_mem (a := a) fun i hi => (Option.some.inj ((h i).1 hi)).symm, hn, List.replicate_succ, List.foldl_cons]
    exact hsame n

/-- No more than one top matches, so the lowest node is the one at which the way down leaves that of the other graph. -/
theorem lowest_eq (hl : left.Tree) (hr : right.Tree) (hn : top < n) :
    lowest left right n top = some ((partedAt left right top).map (·.id)) := by
  let ended := fun other => if Matches left right top other then partedFrom left right (left.chain top) (right.chain other) else none
  have hmem : ∀ i, i ∈ right.tops.filterMap ended ↔ (partedAt left right top).map (·.id) = some i := by
    intro i
    rw [List.mem_filterMap]
    constructor
    · rintro ⟨other, hother, hi⟩
      have hm : Matches left right top other := by
        by_contra hno
        rw [show ended other = none from if_neg hno] at hi
        cases hi
      have hp := (partedAt_eq_some_iff (p := ⟨left, i⟩) hr).2 ⟨other, hother, hm, (if_pos hm).symm.trans hi, rfl⟩
      rw [hp]
      rfl
    · intro h
      obtain ⟨p, hp, rfl⟩ := Option.map_eq_some_iff.1 h
      obtain ⟨other, hother, hm, hparted, -⟩ := (partedAt_eq_some_iff hr).1 hp
      exact ⟨other, hother, (if_pos hm).trans hparted⟩
  have hstep : ∀ best, ∀ other ∈ right.tops, ((divergence left right n top other).map fun
      | none => best
      | some i => lower left best i) = some (match ended other with
      | none => best
      | some i => lower left best i) := fun best other _ => by rw [divergence_eq hl hr hn]; rfl
  rw [lowest, foldlM_eq_some hstep]
  refine congrArg some ?_
  rw [← foldl_lower hmem, List.foldl_filterMap]
  refine congrArg (fun f => right.tops.foldl f none) ?_
  funext best other
  cases ended other <;> rfl

/-- What is collected are the places where one graph leaves the other. -/
theorem collect_eq (hl : left.Tree) (hr : right.Tree) (hn : left.size ≤ n) :
    collect left right n found = some (addPlaces left right found) := by
  have hstep : ∀ found, ∀ top ∈ left.tops, ((lowest left right n top).map fun
      | none => found
      | some i => addPlace found ⟨left, i⟩) = some (match partedAt left right top with
      | none => found
      | some p => addPlace found p) := by
    intro found top htop
    rw [lowest_eq hl hr (Nat.lt_of_lt_of_le (lt_size_of_mem_tops htop) hn)]
    cases hp : partedAt left right top with
    | none => rfl
    | some p =>
      obtain ⟨-, -, -, -, rfl⟩ := (partedAt_eq_some_iff hr).1 hp
      rfl
  rw [collect, foldlM_eq_some hstep, addPlaces, List.foldl_filterMap]
  refine congrArg (fun f => some (left.tops.foldl f found)) ?_
  funext found top
  cases partedAt left right top <;> rfl

/-! ## Searching above a place -/

/-- What is above a node does not depend on how far it is searched, if that is far enough. -/
theorem aboveWithin_eq (h : g.Tree) {m : Nat} (hm : g.size ≤ i + m) (hn : g.size ≤ i + n) :
    Place.aboveWithin g m i = Place.aboveWithin g n i := by
  have hlast : ∀ k n, g.size ≤ k → Place.aboveWithin g n k = [] := by
    intro k n hk
    refine List.eq_nil_iff_forall_not_mem.2 fun j hj => ?_
    obtain ⟨hj, hlt, -⟩ := Place.mem_chain_of_mem_aboveWithin h hj
    omega
  induction m generalizing i n with
  | zero => rw [hlast i 0 hm, hlast i n hm]
  | succ m ih =>
    cases n with
    | zero => rw [hlast i _ hn, hlast i 0 hn]
    | succ n =>
      refine List.flatMap_congr fun p hp => congrArg (p :: ·) ?_
      have hlt := h.lt_of_child? ((h.linked i p).1 hp)
      exact ih (by omega) (by omega)

/-- Above a node are its parents, and what is above them. -/
theorem above_eq (h : g.Tree) (i : NodeId) : Place.above ⟨g, i⟩ = (g.parents i).flatMap fun p => p :: Place.above ⟨g, p⟩ :=
  aboveWithin_eq h (n := g.size + 1) (Nat.le_add_left _ _) (by omega)

/-- The order in which parents are put on a stack does not matter for what is there and above. -/
theorem perm_above (h : g.Tree) (i : NodeId) :
    ((g.parents i).reverse.flatMap fun p => p :: Place.above ⟨g, p⟩).Perm (Place.above ⟨g, i⟩) := by
  rw [above_eq h]
  exact (List.reverse_perm _).flatMap_right _

/-- A search ends when everything that is on the stack, or above something on it, has been taken off. -/
theorem searchAbove_eq (h : g.Tree) {stack : List NodeId}
    (hn : (stack.flatMap fun i => i :: Place.above ⟨g, i⟩).length ≤ n) :
    searchAbove g q n stack = some ((stack.flatMap fun i => i :: Place.above ⟨g, i⟩).any fun i => q.same ⟨g, i⟩) := by
  induction n generalizing stack with
  | zero =>
    obtain rfl : stack = [] := by
      cases stack with
      | nil => rfl
      | cons i stack => simp at hn
    rfl
  | succ n ih =>
    cases stack with
    | nil => rfl
    | cons i stack =>
      have hperm := perm_above h i
      rw [List.flatMap_cons, List.cons_append, List.length_cons, List.length_append] at hn
      rw [searchAbove, List.flatMap_cons, List.cons_append, List.any_cons, List.any_append]
      split
      · next hi => rw [hi, Bool.true_or]
      · next hi =>
        rw [ih (by rw [List.flatMap_append, List.length_append, hperm.length_eq]; omega), List.flatMap_append, List.any_append,
          hperm.any_eq, Bool.eq_false_iff.2 hi, Bool.false_or]

/-- The places above which no other place is found are those that no other place covers. -/
theorem dropCovered_eq (h : ∀ p ∈ ps, p.graph.Tree ∧ p.above.length ≤ n) : dropCovered n ps = some (uncovered ps) := by
  refine filterM_eq_some fun p hp => ?_
  obtain ⟨hgraph, hn⟩ := h p hp
  have hperm := perm_above hgraph p.id
  have hstep : ∀ q ∈ ps, (if q.same p then some false else searchAbove p.graph q n (p.graph.parents p.id).reverse) =
      some (!q.same p && q.covers p) := by
    intro q _
    cases hq : q.same p with
    | true => rfl
    | false =>
      refine (searchAbove_eq hgraph (hperm.length_eq ▸ hn)).trans ?_
      rw [hperm.any_eq]
      rfl
  rw [anyM_eq_some hstep]
  rfl

/-- A place alone is covered by nothing. -/
theorem uncovered_of_length_le (h : ∀ p ∈ ps, ∃ t, p.token? = some t) (hle : ps.length ≤ 1) : uncovered ps = ps := by
  refine List.filter_eq_self.2 fun p hp => ?_
  obtain ⟨t, ht⟩ := h p hp
  have hself : p.same p = true := Place.same_self ht
  match ps, hp, hle with
  | [_], hp, _ => simp [← List.mem_singleton.1 hp, hself]

/-- With enough steps the walks find what a difference names. -/
theorem exists_scan_eq (hb : before.Tree) (ha : after.Tree) : ∃ n, ∀ m, n ≤ m → scan m before after = some (tokens before after) := by
  refine ⟨before.size + after.size + ((places before after).map fun p => p.above.length).sum, fun m hm => ?_⟩
  have hplaces : ∀ p ∈ places before after, p.graph.Tree ∧ p.above.length ≤ m := fun p hp => by
    have hle := List.le_sum_of_mem (List.mem_map_of_mem (f := fun p : Place => p.above.length) hp)
    exact ⟨(tree_of_mem_places hb ha hp).1, by omega⟩
  have hkept : (if 1 < (places before after).length then dropCovered m (places before after) else some (places before after)) =
      some (candidates before after) := by
    split
    · exact dropCovered_eq hplaces
    · next hle =>
      rw [candidates, uncovered_of_length_le (fun p hp => (tree_of_mem_places hb ha hp).2) (Nat.le_of_not_lt hle)]
  have hbefore : collect before after m [] = some (addPlaces before after []) := collect_eq hb ha (by omega)
  have hafter : collect after before m (addPlaces before after []) = some (places before after) := collect_eq ha hb (by omega)
  simp only [scan, hbefore, hafter, hkept, Option.bind_eq_bind, Option.bind_some]
  rfl

/-- For any two graphs that there can be, looking for the tokens to show anew ends with what the ways down say, and so do the walks if they
have enough steps. -/
theorem find_eq_byChains {σ : Type} (hb : before.Reachable) (ha : after.Reachable) (c : Context σ) :
    (find before after c).1 = .ok (byChains before after) ∧
      ∃ n, ∀ m, n ≤ m → scan m before after = some (byChains before after) := by
  have htokens := tokens_eq_byChains hb.wellFormed.toTree ha.wellFormed.toTree
  obtain ⟨n, hn⟩ := exists_scan_eq hb.wellFormed.toTree ha.wellFormed.toTree
  rw [← htokens]
  exact ⟨rfl, n, hn⟩

/-- A second parent of a page is put between the page and its first parent. The page departs in the graph before, and the second parent in
the graph after. In the graph before it is above the page already, so the page is dropped. -/
theorem find_eq_byChains_moved :
    let a := Token.element "page" "site" "1"
    let p := Token.element "page" "site" "2"
    let q := Token.element "page" "site" "3"
    let t := Token.element "page" "site" "4"
    let u := Token.element "page" "site" "5"
    let l := ((((Listing.empty.add a p).add a q).add p t).add q u)
    let l' := ((((Listing.empty.add a q).add q p).add q u).add p t)
    let c := Context.new (Catalog.ofTables l Hooks.empty) {}
    let c' := Context.new (Catalog.ofTables l' Hooks.empty) {}
    ∃ before d after d', LevelGraph.build (some "user") .both a false c = (.ok before, d) ∧
      LevelGraph.build (some "user") .both a false c' = (.ok after, d') ∧ before.Reachable ∧ after.Reachable ∧
      (departures before after).length = 2 ∧ (find before after d').1 = .ok [p, u] ∧
      ∃ n, ∀ m, n ≤ m → scan m before after = some [p, u] := by
  intro a p q t u l l' c c'
  have hbuilt : ((LevelGraph.build (some "user") .both a false c).1.toOption.bind fun before =>
      (LevelGraph.build (some "user") .both a false c').1.toOption.map fun after =>
        ((departures before after).length, byChains before after)) = some (2, [p, u]) := by decide +kernel
  obtain ⟨before, d, after, d', hbefore, hafter, hvalues⟩ := Act.exists_of_map₂_eq_some hbuilt
  obtain ⟨hlength, hnames⟩ := Prod.mk.inj hvalues
  have hb : before.Reachable := .built hbefore
  have ha : after.Reachable := .built hafter
  have hfound := find_eq_byChains hb ha d'
  rw [hnames] at hfound
  exact ⟨before, d, after, d', hbefore, hafter, hb, ha, hlength, hfound.1, hfound.2⟩

end Difference
end Lineage
