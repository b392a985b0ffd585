import Lineage.Proofs.Difference.Places

/-!
# The difference of two graphs, told by chains

What a difference names can be told without walking: from the ways down alone, as lists of what their nodes name. Below a top that both
graphs have, one of them departs from the other at the first node after the longest beginning that the two ways share. A place is dropped
if another one is named by a node above it, which is a node whose own way down leads through the place. The first place for each object
is what counts, and the parents found at the places that are not dropped are the answer, each once.
-/

namespace Lineage

namespace LevelGraph

variable {g : LevelGraph} {i j k p n m : Nat}

/-! ## What is above a node, told by ways down -/

/-- A way down leads on from every node on it. -/
theorem Tree.mem_chain_of_child (h : g.Tree) (hc : g.child? p = some i) (hk : k < g.size) (hp : p ∈ g.chain k) : i ∈ g.chain k := by
  refine h.climb (motive := fun k => p ∈ g.chain k → i ∈ g.chain k) (fun hp => ?_) (fun k c hkc ih hp => ?_) hk hp
  · rw [h.chain_root, List.mem_singleton] at hp
    rw [hp, h.bottom] at hc
    cases hc
  · rw [h.chain_of_child hkc] at hp ⊢
    rcases List.mem_cons.1 hp with rfl | hp
    · rw [hc] at hkc
      cases hkc
      obtain ⟨is, his⟩ := g.exists_chain_eq_cons i
      rw [his]
      exact List.mem_cons_of_mem p List.mem_cons_self
    · exact List.mem_cons_of_mem k (ih hp)

/-- The way down from a node without a child is the node. -/
theorem chain_of_bottom (g : LevelGraph) (h : g.child? i = none) : g.chain i = [i] := by
  rw [chain]
  cases g.size with
  | zero => rfl
  | succ n => simp only [chainWithin, h]

theorem mem_chain_self (g : LevelGraph) (i : Nat) : i ∈ g.chain i := by
  obtain ⟨is, his⟩ := g.exists_chain_eq_cons i
  rw [his]
  exact List.mem_cons_self

end LevelGraph

open LevelGraph

namespace Place

variable {g : LevelGraph} {p q : Place} {i k n : Nat} {t u : Token}

/-- From a node above another one the way down leads through that other one. -/
theorem mem_chain_of_mem_aboveWithin (h : g.Tree) (hk : k ∈ aboveWithin g n i) : k < g.size ∧ i < k ∧ i ∈ g.chain k := by
  induction n generalizing i with
  | zero => cases hk
  | succ n ih =>
    obtain ⟨p, hp, hk⟩ := mem_aboveWithin_succ.1 hk
    have hc := (h.linked i p).1 hp
    have hlt := h.lt_of_child? hc
    rcases hk with rfl | hk
    · exact ⟨lt_size_of_child? hc, hlt, h.mem_chain_of_child hc (lt_size_of_child? hc) (g.mem_chain_self k)⟩
    · obtain ⟨hsize, hpk, hp⟩ := ih hk
      exact ⟨hsize, Nat.lt_trans hlt hpk, h.mem_chain_of_child hc hsize hp⟩

/-- Every other node whose way down leads through a node is above it. -/
theorem mem_aboveWithin_of_mem_chain (h : g.Tree) (hk : k < g.size) (hne : k ≠ i) (hi : i ∈ g.chain k) (hn : k ≤ n) :
    k ∈ aboveWithin g n i := by
  refine h.climb (motive := fun k => k ≠ i → i ∈ g.chain k → ∀ n, k ≤ n → k ∈ aboveWithin g n i) ?_ ?_ hk hne hi n hn
  · intro hne hi
    rw [h.chain_root, List.mem_singleton] at hi
    exact absurd hi.symm hne
  · intro k c hkc ih hne hi n hn
    have hlt := h.lt_of_child? hkc
    obtain ⟨n, rfl⟩ : ∃ m, n = m + 1 := ⟨n - 1, by omega⟩
    rw [h.chain_of_child hkc] at hi
    have hi := (List.mem_cons.1 hi).resolve_left hne.symm
    by_cases hci : c = i
    · exact mem_aboveWithin_of_child h hkc (Or.inl hci)
    · exact mem_aboveWithin_of_child h hkc (Or.inr (ih hci hi n (by omega)))

/-- The nodes above a place are the other nodes whose ways down lead through it. -/
theorem mem_above_iff (h : p.graph.Tree) : k ∈ p.above ↔ k < p.graph.size ∧ k ≠ p.id ∧ p.id ∈ p.graph.chain k := by
  constructor
  · intro hk
    obtain ⟨hsize, hlt, hmem⟩ := mem_chain_of_mem_aboveWithin h hk
    exact ⟨hsize, Nat.ne_of_gt hlt, hmem⟩
  · rintro ⟨hsize, hne, hmem⟩
    exact mem_aboveWithin_of_mem_chain h hsize hne hmem (Nat.le_of_lt hsize)

/-- Places are the same if their tokens name the same object. -/
theorem same_iff_of_tokens (hp : p.token? = some t) (hq : q.token? = some u) : p.same q = true ↔ t.identity = u.identity := by
  unfold same
  rw [hp, hq]
  exact Token.same_iff

/-- A place names the same as a node of a tree if that node is found for its token. -/
theorem same_iff_find? (h : g.Tree) (hq : q.token? = some t) : q.same ⟨g, k⟩ = true ↔ g.find? t = some k := by
  rw [same_iff, h.find?_eq_some_iff]
  constructor
  · rintro ⟨x, hx, a, ha, rfl⟩
    exact ⟨a, ha, (Names.unique ⟨t, hq, rfl⟩ hx).symm⟩
  · rintro ⟨a, ha, hat⟩
    exact ⟨t.identity, ⟨t, hq, rfl⟩, a, ha, hat⟩

end Place

namespace Difference

variable {α : Type} {before after left right : LevelGraph} {L R : List Nat} {top : Nat} {p q : Place} {ps : List Place}

/-! ## Where two lists part -/

/-- How many items two lists have in common before they part. -/
def shared [DecidableEq α] : List α → List α → Nat
  | x :: xs, y :: ys => if x = y then shared xs ys + 1 else 0
  | _, _ => 0

/-- What both lists begin with is what the part that they share begins with, so that part is the longest common beginning. -/
theorem prefix_take_shared_iff [DecidableEq α] {l xs ys : List α} : l <+: xs.take (shared xs ys) ↔ l <+: xs ∧ l <+: ys := by
  induction xs generalizing l ys with
  | nil => simp +contextual [shared]
  | cons x xs ih =>
    cases ys with
    | nil => simp +contextual [shared]
    | cons y ys =>
      rw [shared]
      cases l with
      | nil => simp
      | cons a l =>
        split
        · next hxy =>
          rw [List.take_succ_cons, List.cons_prefix_cons, List.cons_prefix_cons, List.cons_prefix_cons, ih, hxy]
          exact ⟨fun ⟨ha, hx, hy⟩ => ⟨⟨ha, hx⟩, ha, hy⟩, fun ⟨⟨ha, hx⟩, _, hy⟩ => ⟨ha, hx, hy⟩⟩
        · next hxy =>
          rw [List.cons_prefix_cons, List.cons_prefix_cons]
          constructor
          · intro h
            simp at h
          · rintro ⟨⟨ha, -⟩, ha', -⟩
            exact absurd (ha.symm.trans ha') hxy

/-- Two ways part after what they share of what their nodes name. -/
theorem partedFrom_eq (hL : ∀ i ∈ L, i < left.size) (hR : ∀ j ∈ R, j < right.size) :
    partedFrom left right L R = L[shared (left.names L) (right.names R)]? := by
  induction L generalizing R with
  | nil => rfl
  | cons i L ih =>
    cases R with
    | nil =>
      obtain ⟨t, ht⟩ := exists_token?_iff.2 (hL i List.mem_cons_self)
      rw [left.names_cons ht]
      rfl
    | cons j R =>
      obtain ⟨t, ht⟩ := exists_token?_iff.2 (hL i List.mem_cons_self)
      obtain ⟨u, hu⟩ := exists_token?_iff.2 (hR j List.mem_cons_self)
      rw [left.names_cons ht, right.names_cons hu, shared, partedFrom]
      have hsame := Place.same_iff_of_tokens (p := ⟨left, i⟩) (q := ⟨right, j⟩) ht hu
      by_cases h : t.identity = u.identity
      · rw [if_pos (hsame.2 h), if_pos h, List.getElem?_cons_succ]
        exact ih (fun i hi => hL i (List.mem_cons_of_mem _ hi)) fun j hj => hR j (List.mem_cons_of_mem _ hj)
      · rw [if_neg (mt hsame.1 h), if_neg h]
        rfl

/-! ## The definition by chains -/

/-- The place below a top node where the way down leaves what it shares with the way down from the same top of the other graph. -/
def departure (left right : LevelGraph) (top : NodeId) : Option Place :=
  ((left.token? top).bind right.find?).bind fun other =>
    if other ∈ right.tops then
      ((left.chain top)[shared (left.names (left.chain top)) (right.names (right.chain other))]?).map (⟨left, ·⟩)
    else none

/-- The places where one of the graphs departs from the other, the first one for each object. -/
def departures (before after : LevelGraph) : List Place :=
  (before.tops.filterMap (departure before after) ++ after.tops.filterMap (departure after before)).eraseDupsBy Place.same

/-- Whether one of some places is named by another node of the graph of a place, with a way down that leads through the place. -/
def dropped (ps : List Place) (p : Place) : Bool :=
  ps.any fun q => (q.token?.bind p.graph.find?).any fun m => m ≠ p.id && p.id ∈ p.graph.chain m

/-- The parents found at the places that are not dropped, each once. -/
def byChains (before after : LevelGraph) : List Token :=
  (((departures before after).filter fun p => !dropped (departures before after) p).flatMap Place.parentTokens).eraseDupsBy Token.same

/-! ## The difference is what the definition says -/

theorem departure_eq_some_iff (hr : right.Tree) :
    departure left right top = some p ↔ ∃ other ∈ right.tops, Matches left right top other ∧
      (left.chain top)[shared (left.names (left.chain top)) (right.names (right.chain other))]? = some p.id ∧ p.graph = left := by
  unfold departure
  constructor
  · intro h
    obtain ⟨other, hother, h⟩ := Option.bind_eq_some_iff.1 h
    obtain ⟨t, ht, hfind⟩ := Option.bind_eq_some_iff.1 hother
    split at h
    · next hmem =>
      obtain ⟨i, hi, rfl⟩ := Option.map_eq_some_iff.1 h
      exact ⟨other, hmem, (Place.same_iff_find? (q := ⟨left, top⟩) hr ht).2 hfind, hi, rfl⟩
    · cases h
  · rintro ⟨other, hmem, hm, hi, rfl⟩
    obtain ⟨x, ⟨t, ht, -⟩, -⟩ := matches_iff.1 hm
    have hfind : (p.graph.token? top).bind right.find? = some other :=
      Option.bind_eq_some_iff.2 ⟨t, ht, (Place.same_iff_find? (q := ⟨p.graph, top⟩) hr ht).1 hm⟩
    rw [hfind]
    exact (if_pos hmem).trans (by rw [hi]; rfl)

theorem partedAt_eq_departure (hl : left.Tree) (hr : right.Tree) (htop : top ∈ left.tops) :
    partedAt left right top = departure left right top := by
  refine Option.ext fun p => ?_
  rw [partedAt_eq_some_iff hr, departure_eq_some_iff hr]
  refine exists_congr fun other => and_congr_right fun hother => and_congr_right fun _ => ?_
  rw [partedFrom_eq (fun i hi => hl.lt_size_of_mem_chain (lt_size_of_mem_tops htop) hi)
    fun j hj => hr.lt_size_of_mem_chain (lt_size_of_mem_tops hother) hj]

/-- To keep what nothing before is the same as is to erase repetitions. -/
theorem foldl_eq_eraseDupsBy {r : α → α → Bool} (hr : ∀ a b, r a b = r b a) (as found : List α) :
    as.foldl (fun found a => if found.any (r · a) then found else found ++ [a]) found =
      found ++ (as.filter fun a => !found.any (r · a)).eraseDupsBy r := by
  induction as generalizing found with
  | nil => simp [List.eraseDupsBy, List.eraseDupsBy.loop]
  | cons a as ih =>
    rw [List.foldl_cons]
    by_cases ha : found.any (r · a) = true
    · rw [if_pos ha, ih, List.filter_cons_of_neg (by simp [ha])]
    · rw [if_neg ha, ih, List.filter_cons_of_pos (by simpa using ha), List.eraseDupsBy_cons, List.append_assoc, List.filter_filter]
      have hnew : ∀ b, (!(found ++ [a]).any (r · b)) = (decide (r b a = false) && !found.any (r · b)) := fun b => by
        simp [hr a b, Bool.and_comm]
      simp only [hnew, List.singleton_append]

/-- The places of a difference are where one of the graphs departs from the other. -/
theorem places_eq_departures (hb : before.Tree) (ha : after.Tree) : places before after = departures before after := by
  have hsame : ∀ p q : Place, p.same q = q.same p := fun p q => Bool.eq_iff_iff.2 Place.same_comm
  have hparted : ∀ {left right : LevelGraph}, left.Tree → right.Tree →
      left.tops.filterMap (partedAt left right) = left.tops.filterMap (departure left right) :=
    fun hl hr => List.filterMap_congr fun top htop => partedAt_eq_departure hl hr htop
  unfold places addPlaces departures
  rw [← List.foldl_append, hparted hb ha, hparted ha hb]
  refine (foldl_eq_eraseDupsBy hsame _ []).trans ?_
  simp

/-- A place of a difference is of one of the graphs. -/
theorem graph_of_mem_places (hb : before.Tree) (ha : after.Tree) (hp : p ∈ places before after) :
    p.graph = before ∨ p.graph = after :=
  (parts_of_mem_places hp).imp (fun h => (h.exists_split ha).1) fun h => (h.exists_split hb).1

/-- A place of a difference is a node of one of the graphs. -/
theorem tree_of_mem_places (hb : before.Tree) (ha : after.Tree) (hp : p ∈ places before after) :
    p.graph.Tree ∧ ∃ t, p.token? = some t := by
  constructor
  · rcases graph_of_mem_places hb ha hp with hg | hg
    · exact hg ▸ hb
    · exact hg ▸ ha
  · rcases parts_of_mem_places hp with h | h
    · exact h.exists_token hb ha
    · exact h.exists_token ha hb

/-- Another place of an object covers a place if a node that it names has a way down through the place. -/
theorem covers_other_eq (hp : p.graph.Tree) (hq : ∃ t, q.token? = some t) :
    (!q.same p && q.covers p) = (q.token?.bind p.graph.find?).any fun m => m ≠ p.id && p.id ∈ p.graph.chain m := by
  obtain ⟨t, ht⟩ := hq
  have hself : q.same p = true ↔ p.graph.find? t = some p.id := Place.same_iff_find? hp ht
  rw [ht, Option.bind_some]
  refine Bool.eq_iff_iff.2 ?_
  rw [Bool.and_eq_true, Bool.not_eq_true', ← Bool.not_eq_true, Place.covers_iff, Option.any_eq_true]
  simp only [Bool.and_eq_true, decide_eq_true_eq, hself, Place.same_iff_find? hp ht]
  constructor
  · rintro ⟨-, k, hk, hfind⟩
    exact ⟨k, hfind, ((Place.mem_above_iff hp).1 hk).2⟩
  · rintro ⟨m, hm, hne, hmem⟩
    obtain ⟨a, ha, -⟩ := hp.find?_eq_some_iff.1 hm
    refine ⟨fun hid => hne ?_, m, (Place.mem_above_iff hp).2 ⟨lt_size_of_token? ha, hne, hmem⟩, hm⟩
    exact Option.some.inj (hm.symm.trans hid)

/-- What a difference names is what the definition by chains says. -/
theorem tokens_eq_byChains (hb : before.Tree) (ha : after.Tree) : tokens before after = byChains before after := by
  have hcandidates : candidates before after = (departures before after).filter fun p => !dropped (departures before after) p := by
    rw [← places_eq_departures hb ha, candidates, uncovered]
    refine List.filter_congr fun p hp => congrArg (!·) ?_
    have hgraph := (tree_of_mem_places hb ha hp).1
    refine Bool.eq_iff_iff.2 ?_
    rw [dropped, List.any_eq_true, List.any_eq_true]
    refine exists_congr fun q => and_congr_right fun hq => ?_
    rw [covers_other_eq hgraph (tree_of_mem_places hb ha hq).2]
  rw [tokens, hcandidates, Token.distinct]
  refine (foldl_eq_eraseDupsBy Token.same_comm _ []).trans ?_
  simp [byChains]

end Difference
end Lineage
