import Lineage.Proofs.Ancestry
import Mathlib.Data.Nat.Find

/-!
# Maximal paths

A path goes from an identity to a parent of it, from there to a parent of that one, and so on, never twice to the same identity. It is
maximal when every parent of its end is on it already (`Maximal`). `pathsFrom` lists the maximal paths depth first, parents in the order
in which they are named; with enough fuel it lists them all. Where finitely many identities are reached, the maximal paths from a root
lead to all of them, and to each at its distance first: a shortest chain has no repetition and leads nowhere earlier, so it is the
beginning of a maximal path.
-/

namespace Lineage.Ancestry

/-- The identities of tokens, added to those that were there before; none is added twice. -/
def adding (found : List Identity) (ts : List Token) : List Identity :=
  ts.foldl (fun found t => if t.identity ∈ found then found else found ++ [t.identity]) found

/-- The parents of an identity, each once, in the order in which they are named first. -/
def parentIds (f : Ancestry) (x : Identity) : List Identity := adding [] (f.parents .both x)

/-- The paths that continue a path by `x` and go on until no parent is new, the identities before `x` given nearest first. -/
inductive Maximal (f : Ancestry) : List Identity → Identity → List Identity → Prop where
  | stop {before : List Identity} {x : Identity} (h : ∀ y, f.Parent .both x y → y ∈ x :: before) : Maximal f before x [x]
  | step {before path : List Identity} {x y : Identity} (hxy : f.Parent .both x y) (hy : y ∉ x :: before)
      (h : Maximal f (x :: before) y path) : Maximal f before x (x :: path)

/-- What a function lists for each item, one list after the other, if it has a list for all of them. -/
def gathered {α β : Type} (list : α → Option (List β)) : List α → Option (List β)
  | [] => some []
  | a :: as => (list a).bind fun bs => (gathered list as).map (bs ++ ·)

/-- The maximal paths through `x`, those through its first parent before those through its second. There is nothing if one of them would
have more nodes than allowed. -/
def pathsFrom (f : Ancestry) : Nat → List Identity → Identity → Option (List (List Identity))
  | 0, _, _ => none
  | n + 1, before, x =>
    let next := (f.parentIds x).filter (· ∉ x :: before)
    if next.isEmpty then some [[x]] else (gathered (f.pathsFrom n (x :: before)) next).map (·.map (x :: ·))

variable {f : Ancestry} {before found path : List Identity} {paths : List (List Identity)} {root x y z : Identity} {m n k : Nat}

/-! ## Parents -/

theorem adding_cons (found : List Identity) (t : Token) (ts : List Token) :
    adding found (t :: ts) = adding (if t.identity ∈ found then found else found ++ [t.identity]) ts := rfl

theorem adding_append (found : List Identity) (ts us : List Token) : adding found (ts ++ us) = adding (adding found ts) us :=
  List.foldl_append

theorem mem_adding_iff {ts : List Token} : x ∈ adding found ts ↔ x ∈ found ∨ ∃ t ∈ ts, t.identity = x := by
  induction ts generalizing found with
  | nil => simp [adding]
  | cons t ts ih =>
    rw [adding_cons, ih]
    by_cases ht : t.identity ∈ found
    · rw [if_pos ht]
      constructor
      · rintro (hx | ⟨u, hu, hux⟩)
        · exact Or.inl hx
        · exact Or.inr ⟨u, List.mem_cons_of_mem t hu, hux⟩
      · rintro (hx | ⟨u, hu, rfl⟩)
        · exact Or.inl hx
        · rcases List.mem_cons.1 hu with rfl | hu
          · exact Or.inl ht
          · exact Or.inr ⟨u, hu, rfl⟩
    · rw [if_neg ht]
      simp [or_assoc, eq_comm]

/-- They are the parents. -/
theorem mem_parentIds_iff : y ∈ f.parentIds x ↔ f.Parent .both x y := by
  rw [parentIds, mem_adding_iff]
  simp [Parent]

/-! ## The maximal paths are listed -/

theorem mem_gathered {α β : Type} {list : α → Option (List β)} {as : List α} {bs : List β} (h : gathered list as = some bs) (b : β) :
    b ∈ bs ↔ ∃ a ∈ as, ∃ l, list a = some l ∧ b ∈ l := by
  induction as generalizing bs with
  | nil =>
    cases h
    simp
  | cons a as ih =>
    obtain ⟨l, hl, h⟩ := Option.bind_eq_some_iff.1 h
    obtain ⟨rest, hrest, rfl⟩ := Option.map_eq_some_iff.1 h
    rw [List.mem_append, ih hrest]
    constructor
    · rintro (hb | ⟨a', ha', hb⟩)
      · exact ⟨a, List.mem_cons_self, l, hl, hb⟩
      · exact ⟨a', List.mem_cons_of_mem a ha', hb⟩
    · rintro ⟨a', ha', l', hl', hb⟩
      rcases List.mem_cons.1 ha' with rfl | ha'
      · rw [hl] at hl'
        cases hl'
        exact Or.inl hb
      · exact Or.inr ⟨a', ha', l', hl', hb⟩

/-- Where something is gathered, there is a list for every item. -/
theorem exists_of_gathered {α β : Type} {list : α → Option (List β)} {as : List α} {bs : List β} (h : gathered list as = some bs)
    {a : α} (ha : a ∈ as) : ∃ l, list a = some l := by
  induction as generalizing bs with
  | nil => cases ha
  | cons a' as ih =>
    obtain ⟨l, hl, h⟩ := Option.bind_eq_some_iff.1 h
    obtain ⟨rest, hrest, -⟩ := Option.map_eq_some_iff.1 h
    rcases List.mem_cons.1 ha with rfl | ha
    · exact ⟨l, hl⟩
    · exact ih hrest ha

theorem exists_gathered {α β : Type} {list : α → Option (List β)} {as : List α} (h : ∀ a ∈ as, ∃ l, list a = some l) :
    ∃ bs, gathered list as = some bs := by
  induction as with
  | nil => exact ⟨[], rfl⟩
  | cons a as ih =>
    obtain ⟨l, hl⟩ := h a List.mem_cons_self
    obtain ⟨bs, hbs⟩ := ih fun a' ha' => h a' (List.mem_cons_of_mem a ha')
    exact ⟨l ++ bs, by simp [gathered, hl, hbs]⟩

/-- The parents that a path can go on to. -/
theorem mem_next_iff : y ∈ (f.parentIds x).filter (· ∉ x :: before) ↔ f.Parent .both x y ∧ y ∉ x :: before := by
  rw [List.mem_filter, mem_parentIds_iff, decide_eq_true_iff]

/-- What is listed are the maximal paths. -/
theorem mem_pathsFrom_iff (h : f.pathsFrom n before x = some paths) : path ∈ paths ↔ f.Maximal before x path := by
  induction n generalizing before x path paths with
  | zero => cases h
  | succ n ih =>
    rw [pathsFrom] at h
    split at h
    · next hnone =>
      cases h
      have hstop : ∀ y, f.Parent .both x y → y ∈ x :: before := fun y hy => Classical.byContradiction fun hnew => by
        have hmem := mem_next_iff.2 ⟨hy, hnew⟩
        rw [List.isEmpty_iff.1 hnone] at hmem
        cases hmem
      rw [List.mem_singleton]
      constructor
      · rintro rfl
        exact Maximal.stop hstop
      · intro hpath
        cases hpath with
        | stop => rfl
        | step hxy hy => exact absurd (hstop _ hxy) hy
    · next hsome =>
      obtain ⟨rest, hrest, rfl⟩ := Option.map_eq_some_iff.1 h
      rw [List.mem_map]
      constructor
      · rintro ⟨path, hpath, rfl⟩
        obtain ⟨y, hy, l, hl, hpath⟩ := (mem_gathered hrest path).1 hpath
        obtain ⟨hxy, hnew⟩ := mem_next_iff.1 hy
        exact Maximal.step hxy hnew ((ih hl).1 hpath)
      · intro hpath
        cases hpath with
        | stop hstop =>
          refine absurd (List.isEmpty_iff.2 (List.eq_nil_iff_forall_not_mem.2 fun y hy => ?_)) hsome
          obtain ⟨hxy, hnew⟩ := mem_next_iff.1 hy
          exact hnew (hstop y hxy)
        | @step _ path _ y hxy hnew hpath =>
          obtain ⟨l, hl⟩ := exists_of_gathered hrest (mem_next_iff.2 ⟨hxy, hnew⟩)
          exact ⟨path, (mem_gathered hrest path).2 ⟨y, mem_next_iff.2 ⟨hxy, hnew⟩, l, hl, (ih hl).2 hpath⟩, rfl⟩

/-! ## Finitely many ancestors -/

section Finite

variable {within : List Identity}

/-- The identities that are not on a path become fewer with every node that is added to it. -/
theorem length_filter_cons_lt (hx : x ∈ within) (hnew : x ∉ before) :
    (within.filter (· ∉ x :: before)).length < (within.filter (· ∉ before)).length := by
  have hfilter : within.filter (· ∉ x :: before) = (within.filter (· ∉ before)).filter (· ≠ x) := by
    rw [List.filter_filter]
    congr 1
    funext y
    simp [List.mem_cons]
  rw [hfilter]
  exact List.length_filter_lt_length_iff_exists.2 ⟨x, List.mem_filter.2 ⟨hx, by simpa using hnew⟩, by simp⟩

variable (hwithin : ∀ y ∈ within, ∀ z, f.Parent .both y z → z ∈ within)

include hwithin

/-- With as much fuel as there are identities that are not on the path, all paths are listed. -/
theorem exists_pathsFrom (hx : x ∈ within) (hnew : x ∉ before) (hn : (within.filter (· ∉ before)).length ≤ n) :
    ∃ paths, f.pathsFrom n before x = some paths := by
  induction n generalizing before x with
  | zero =>
    have hlt := length_filter_cons_lt hx hnew
    omega
  | succ n ih =>
    have hlt := length_filter_cons_lt hx hnew
    rw [pathsFrom]
    split
    · exact ⟨_, rfl⟩
    · have hnext : ∀ y ∈ (f.parentIds x).filter (· ∉ x :: before), ∃ l, f.pathsFrom n (x :: before) y = some l := by
        intro y hy
        obtain ⟨hxy, hy⟩ := mem_next_iff.1 hy
        exact ih (hwithin x hx y hxy) hy (by omega)
      obtain ⟨rest, hrest⟩ := exists_gathered hnext
      exact ⟨rest.map (x :: ·), by rw [hrest]; rfl⟩

/-- Every path can be continued to a maximal one. -/
theorem exists_maximal (hx : x ∈ within) (hnew : x ∉ before) : ∃ path, f.Maximal before x path := by
  generalize hn : (within.filter (· ∉ before)).length = n
  induction n using Nat.strongRecOn generalizing before x with
  | ind n ih =>
    by_cases hstop : ∀ y, f.Parent .both x y → y ∈ x :: before
    · exact ⟨[x], Maximal.stop hstop⟩
    · obtain ⟨y, hy⟩ := Classical.not_forall.1 hstop
      obtain ⟨hxy, hy⟩ := Classical.not_imp.1 hy
      have hlt := length_filter_cons_lt hx hnew
      obtain ⟨path, hpath⟩ := ih _ (by omega) (hwithin x hx y hxy) hy rfl
      exact ⟨x :: path, Maximal.step hxy hy hpath⟩

end Finite

/-! ## Positions and distances -/

theorem Maximal.head (h : f.Maximal before x path) : path[0]? = some x := by cases h <;> rfl

/-- To each position of a path leads a chain of as many steps. -/
theorem Maximal.chain (h : f.Maximal before x path) (hy : path[k]? = some y) : f.Chain .both k x y := by
  induction h generalizing k with
  | stop =>
    cases k with
    | zero =>
      cases hy
      exact Chain.refl _
    | succ k => cases hy
  | @step before path x z hxz _ _ ih =>
    cases k with
    | zero =>
      cases hy
      exact Chain.refl _
    | succ k =>
      rw [Nat.add_comm]
      exact hxz.chain.trans (ih hy)

/-- Whatever is reached has a distance. -/
theorem Reaches.exists_distance {search : Search} (h : f.Reaches search x y) : ∃ n, f.Distance search n x y := by
  classical
  exact ⟨Nat.find h, Nat.find_spec h, fun m hm => Nat.find_min' h hm⟩

/-- On the way of a shortest chain nothing is reached in fewer steps. -/
theorem Distance.le_of_chain (hd : f.Distance .both (n + m) root y) (hxy : f.Chain .both m x y) (hx : f.Chain .both k root x) :
    n ≤ k := by
  have hle := hd.2 _ (hx.trans hxy)
  omega

/-- A shortest chain is the beginning of a maximal path. What is before `x` on the way from the root was reached in fewer steps than
`x`, so what comes next on the chain is new. -/
theorem Maximal.exists_of_distance {within : List Identity} (hwithin : ∀ y ∈ within, ∀ z, f.Parent .both y z → z ∈ within)
    (hd : f.Distance .both (n + m) root y) (hx : f.Chain .both n root x) (hxy : f.Chain .both m x y)
    (hbefore : ∀ z ∈ before, ∃ k < n, f.Chain .both k root z) (hmem : x ∈ within) :
    ∃ path, f.Maximal before x path ∧ path[m]? = some y := by
  induction m generalizing n before x with
  | zero =>
    have hnew : x ∉ before := fun hx' => by
      obtain ⟨k, hk, hc⟩ := hbefore x hx'
      exact Nat.not_lt.2 (hd.le_of_chain hxy hc) hk
    obtain ⟨path, hpath⟩ := exists_maximal hwithin hmem hnew
    rw [hxy.eq_of_zero]
    exact ⟨path, hpath, hpath.head⟩
  | succ m ih =>
    obtain ⟨z, hxz, hzy⟩ := hxy.first
    rw [show n + (m + 1) = n + 1 + m by omega] at hd
    have hreached : ∀ w ∈ x :: before, ∃ k < n + 1, f.Chain .both k root w := by
      intro w hw
      rcases List.mem_cons.1 hw with rfl | hw
      · exact ⟨n, Nat.lt_succ_self n, hx⟩
      · obtain ⟨k, hk, hc⟩ := hbefore w hw
        exact ⟨k, Nat.lt_succ_of_lt hk, hc⟩
    have hnew : z ∉ x :: before := fun hz => by
      obtain ⟨k, hk, hc⟩ := hreached z hz
      exact Nat.not_lt.2 (hd.le_of_chain hzy hc) hk
    obtain ⟨path, hpath, hy⟩ := ih hd (hx.snoc hxz) hzy hreached (hwithin x hmem z hxz)
    exact ⟨x :: path, Maximal.step hxz hnew hpath, hy⟩

/-- The maximal paths from a root, where finitely many identities are reached: to each of them a path leads at its distance, and no path
leads there earlier. -/
theorem exists_maximal_of_reaches {within : List Identity} (hwithin : ∀ y ∈ within, ∀ z, f.Parent .both y z → z ∈ within)
    (hroot : root ∈ within) (hd : f.Distance .both n root y) :
    (∃ path, f.Maximal [] root path ∧ path[n]? = some y) ∧
      ∀ path k, f.Maximal [] root path → path[k]? = some y → n ≤ k := by
  refine ⟨?_, fun path k hpath hk => hd.2 k (hpath.chain hk)⟩
  rw [← Nat.zero_add n] at hd
  exact Maximal.exists_of_distance hwithin hd (Chain.refl root) (Nat.zero_add n ▸ hd.1) (fun z hz => nomatch hz) hroot

end Lineage.Ancestry
