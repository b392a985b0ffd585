import Lineage.Proofs.Graph.Lazy
import Lineage.Proofs.Graph.Shortest
import Lineage.Proofs.Token.Distinct
import Mathlib.Data.List.Forall2

/-!
# Parallel surveys

The survey of one root may find from some wave on what the survey of another root finds, find by find, and only the numbers of the finds
are shifted (`Parallel`). That lasts from one wave to the next as long as the two ancestries agree on what was found and nothing of it
was known in one survey only, and so it holds of all waves after. A graph that is built shows the whole survey, so what two surveys have
in common the two graphs have in common.
-/

namespace Lineage

namespace Find

/-- The second of two finds is the same object as the first one, named by the find that has the number of the other's child after a
shift. -/
structure Shifted (φ : Option Nat → Option Nat) (p q : Find) : Prop where
  identity : q.token.identity = p.token.identity
  child : q.child = φ p.child

variable {φ : Option Nat → Option Nat} {R : Find → Find → Prop} {known known' : List Identity} {ps qs : List Find}

theorem identities_eq_of_shifted (h : List.Forall₂ (Shifted φ) ps qs) : identities qs = identities ps := by
  induction h with
  | nil => rfl
  | cons hpq _ ih => exact congrArg₂ List.cons hpq.identity ih

/-- Finds that correspond are found under the same number. -/
theorem exists_getElem?_of_forall₂ {i : Nat} {p : Find} (h : List.Forall₂ R ps qs) (hp : ps[i]? = some p) :
    ∃ q, qs[i]? = some q ∧ R p q := by
  induction h generalizing i with
  | nil => cases hp
  | @cons p' q' ps qs hpq _ ih =>
    cases i with
    | zero =>
      cases hp
      exact ⟨q', rfl, hpq⟩
    | succ i =>
      rw [List.getElem?_cons_succ] at hp ⊢
      exact ih hp

/-- Of lists that name the same, the same is fresh if the same is known of what they name. -/
theorem forall₂_fresh (hR : ∀ p q, R p q → q.token.identity = p.token.identity) (h : List.Forall₂ R ps qs)
    (hknown : ∀ p ∈ ps, p.token.identity ∈ known ↔ p.token.identity ∈ known') :
    List.Forall₂ R (fresh known ps) (fresh known' qs) := by
  induction h generalizing known known' with
  | nil => exact List.Forall₂.nil
  | @cons p q ps qs hpq _ ih =>
    have hp := hknown p List.mem_cons_self
    rw [fresh, fresh, hR p q hpq]
    split
    · next hmem =>
      rw [if_pos (hp.1 hmem)]
      exact ih fun r hr => hknown r (List.mem_cons_of_mem p hr)
    · next hmem =>
      rw [if_neg (mt hp.2 hmem)]
      refine List.Forall₂.cons hpq (ih fun r hr => ?_)
      rw [List.mem_append, List.mem_append, hknown r (List.mem_cons_of_mem p hr)]

/-- What is fresh depends only on what is known of what is found. -/
theorem fresh_congr (h : ∀ p ∈ ps, p.token.identity ∈ known ↔ p.token.identity ∈ known') : fresh known ps = fresh known' ps := by
  have hfresh := forall₂_fresh (R := Eq) (fun _ _ hpq => hpq ▸ rfl) (List.forall₂_refl ps) h
  rwa [List.forall₂_eq_eq_eq] at hfresh

/-- The fresh finds have the tokens without repetitions. -/
theorem distinct_map_token (ps : List Find) : Token.distinct (ps.map (·.token)) = (fresh [] ps).map (·.token) := by
  suffices ∀ seen : List Token, Token.addNew seen (ps.map (·.token)) = seen ++ (fresh (seen.map (·.identity)) ps).map (·.token) from
    this []
  induction ps with
  | nil => simp [fresh, Token.addNew]
  | cons p ps ih =>
    intro seen
    have hseen : p.token.identity ∈ seen.map (·.identity) ↔ ∃ s ∈ seen, s.identity = p.token.identity := List.mem_map
    rw [List.map_cons, fresh]
    split
    · next h => rw [Token.addNew_cons_of_mem (hseen.1 h), ih]
    · next h =>
      rw [Token.addNew_cons_of_not_mem (mt hseen.2 h), ih, List.map_append, List.map_singleton, List.map_cons, List.append_assoc,
        List.singleton_append]

end Find

namespace Ancestry

variable {f f' : Ancestry} {search : Search} {φ : Option Nat → Option Nat} {root root' : Token} {d m m' n : Nat} {p : Find}
  {ps qs : List Find} {x : Identity}

/-! ## What is named and found -/

/-- What is named by what is reached are proper ancestors. -/
theorem above_of_mem_named {level first : Nat} (hps : ∀ q ∈ ps, f.Reaches search x q.token.identity)
    (hp : p ∈ f.named search level first ps) : f.Above search x p.token.identity := by
  simp only [named, List.mem_flatMap, List.mem_map] at hp
  obtain ⟨⟨q, i⟩, hq, b, hb, t, ht, rfl⟩ := hp
  have hmem := List.mem_of_getElem? (List.mk_mem_zipIdx_iff_le_and_getElem?_sub.1 hq).2
  exact (hps q hmem).trans_above (parent_iff.2 ⟨b, hb, t, ht, rfl⟩).above

/-- What a survey finds is reached from its root. -/
theorem reaches_of_mem_wave (hp : p ∈ f.wave search root n) : f.Reaches search root.identity p.token.identity := by
  induction n generalizing p with
  | zero =>
    rw [wave_zero, List.mem_singleton] at hp
    rw [hp]
    exact Reaches.refl _
  | succ n ih =>
    rw [wave_succ] at hp
    exact (above_of_mem_named (fun _ => ih) (Find.mem_of_mem_fresh hp)).reaches

/-- The first wave is what the root names, each object once and without the root. -/
theorem wave_one : f.wave search root 1 = Find.fresh [root.identity] (f.named search 1 0 (f.wave search root 0)) := rfl

/-- What the root names are its parents. -/
theorem tokens_named_root : (f.named search 1 0 (f.wave search root 0)).map (·.token) = f.parents search root.identity := by
  simp only [wave_zero, named, parents, List.zipIdx_singleton, List.flatMap_singleton, List.map_flatMap, List.map_map,
    Function.comp_def, List.map_id']

/-- The root is the find with the first number. -/
theorem child_of_mem_named_root (hp : p ∈ f.named search 1 0 (f.wave search root 0)) : p.child = some 0 := by
  simp only [wave_zero, named, List.zipIdx_singleton, List.flatMap_singleton, List.mem_flatMap, List.mem_map] at hp
  obtain ⟨b, -, t, -, rfl⟩ := hp
  rfl

/-- What is found in the first wave is a parent of the root. -/
theorem parent_of_mem_wave_one (hp : p ∈ f.wave search root 1) : f.Parent search root.identity p.token.identity := by
  refine ⟨p.token, ?_, rfl⟩
  rw [← tokens_named_root]
  exact List.mem_map_of_mem (Find.mem_of_mem_fresh hp)

/-- What is found in the first wave was named by the root. -/
theorem child_of_mem_wave_one (hp : p ∈ f.wave search root 1) : p.child = some 0 :=
  child_of_mem_named_root (Find.mem_of_mem_fresh hp)

/-- The first wave has the tokens of the parents, if the root is not one of them. -/
theorem tokens_wave_one (h : ¬f.Parent search root.identity root.identity) :
    (f.wave search root 1).map (·.token) = Token.distinct (f.parents search root.identity) := by
  rw [← tokens_named_root, Find.distinct_map_token, wave_one, Find.fresh_congr fun p hp => ?_]
  refine ⟨fun hroot => absurd ⟨p.token, ?_, List.mem_singleton.1 hroot⟩ h, fun hnil => absurd hnil List.not_mem_nil⟩
  rw [← tokens_named_root]
  exact List.mem_map_of_mem hp

/-- If the root has one parent, the first wave is that parent, however often it is named. -/
theorem exists_wave_one_eq (honly : ∀ y, f.Parent search root.identity y ↔ y = x) (hne : x ≠ root.identity) :
    ∃ p, f.wave search root 1 = [p] ∧ p.token.identity = x ∧ p.child = some 0 := by
  have htokens := tokens_wave_one fun h => hne ((honly root.identity).1 h).symm
  have hall : ∀ p ∈ f.wave search root 1, p.token.identity = x := fun p hp => (honly _).1 (parent_of_mem_wave_one hp)
  have hnodup := Token.nodup_distinct (f.parents search root.identity)
  rw [← htokens] at hnodup
  match hwave : f.wave search root 1 with
  | [] =>
    obtain ⟨t, ht, -⟩ := Token.exists_mem_distinct_iff.2 ((honly x).2 rfl)
    rw [← htokens, hwave] at ht
    cases ht
  | [p] =>
    have hp : p ∈ f.wave search root 1 := hwave ▸ List.mem_singleton.2 rfl
    exact ⟨p, rfl, hall p hp, child_of_mem_wave_one hp⟩
  | p :: q :: ps =>
    rw [hwave] at hall hnodup
    have hpq : p.token.identity = q.token.identity :=
      (hall p List.mem_cons_self).trans (hall q (List.mem_cons_of_mem p List.mem_cons_self)).symm
    simp [hpq] at hnodup

/-- After an empty wave nothing more is found. -/
theorem below_eq_of_le (h : f.wave search root m = []) (hmn : m ≤ n) : f.below search root n = f.below search root m := by
  induction n, hmn using Nat.le_induction with
  | base => rfl
  | succ n hmn ih => rw [below_succ, wave_eq_nil_of_le h hmn, List.append_nil, ih]

/-- The finds that the root named are those of the first wave. -/
theorem filter_below (n : Nat) : ((f.below search root (n + 2)).filter fun p => p.child = some 0) = f.wave search root 1 := by
  induction n with
  | zero =>
    have hwave : ∀ p ∈ f.wave search root 1, decide (p.child = some 0) = true := fun p hp => decide_eq_true (child_of_mem_wave_one hp)
    rw [below_succ, List.filter_append, List.filter_eq_self.2 hwave]
    rfl
  | succ n ih =>
    rw [below_succ, List.filter_append, ih, List.filter_eq_nil_iff.2 fun p hp => ?_, List.append_nil]
    -- a later wave was named by finds of a wave before it, and the root is in the first
    obtain ⟨-, i, hi, hle⟩ := of_mem_wave_succ hp
    have hroot : (f.below search root 1).length ≤ (f.below search root (n + 1)).length := length_below_le (by omega)
    have hone : (f.below search root 1).length = 1 := rfl
    rw [hi, decide_eq_true_iff, Option.some.injEq]
    omega

/-! ## Two surveys beside each other -/

/-- Finds that are answered about alike name the same, under shifted numbers. -/
theorem forall₂_named (hφ : ∀ i, φ (some i) = some (i + d)) {level level' : Nat} (h : List.Forall₂ (fun p q : Find =>
      ∀ b, ((f'.onBranch b q.token.identity).getD []).map Token.identity =
        ((f.onBranch b p.token.identity).getD []).map Token.identity) ps qs) (first : Nat) :
    List.Forall₂ (Find.Shifted φ) (f.named search level first ps) (f'.named search level' (first + d) qs) := by
  induction h generalizing first with
  | nil => exact List.Forall₂.nil
  | @cons p q ps qs hpq _ ih =>
    have hrest := ih (first + 1)
    rw [Nat.add_right_comm] at hrest
    simp only [named, List.zipIdx_cons, List.flatMap_cons]
    refine List.rel_append ?_ hrest
    refine List.rel_flatMap (R := Eq) (List.forall₂_refl search.branches) ?_
    rintro b _ rfl
    have halike := hpq b
    rw [← List.forall₂_eq_eq_eq, List.forall₂_map_left_iff, List.forall₂_map_right_iff] at halike
    rw [List.forall₂_map_left_iff, List.forall₂_map_right_iff]
    exact halike.flip.imp fun t u htu => ⟨htu, (hφ first).symm⟩

/-- From a wave of each on, one survey finds what the other finds, and has found before what the other has found before, apart from what
each of them has found on its own. -/
structure Parallel (f f' : Ancestry) (search : Search) (φ : Option Nat → Option Nat) (own own' : List Find) (root root' : Token)
    (m m' : Nat) : Prop where
  below : ∃ ps qs, f.below search root m = own ++ ps ∧ f'.below search root' m' = own' ++ qs ∧ List.Forall₂ (Find.Shifted φ) ps qs
  wave : List.Forall₂ (Find.Shifted φ) (f.wave search root m) (f'.wave search root' m')

section Run

variable {own own' : List Find} (hφ : ∀ i, φ (some i) = some (i + d)) (hlength : own'.length = own.length + d)
  (hagree : ∀ x, f.Reaches search root.identity x → ∀ b, f'.onBranch b x = f.onBranch b x)
  (hnew : ∀ x, f.Above search root.identity x → x ∉ Find.identities own ∧ x ∉ Find.identities own')

include hφ hlength hagree hnew

/-- If the ancestries agree on what is reached and nothing of it was found by one survey on its own, the next waves are alike as well. -/
theorem Parallel.succ (h : Parallel f f' search φ own own' root root' m m') :
    Parallel f f' search φ own own' root root' (m + 1) (m' + 1) := by
  obtain ⟨ps, qs, hps, hqs, hpq⟩ := h.below
  have hbelow : List.Forall₂ (Find.Shifted φ) (ps ++ f.wave search root m) (qs ++ f'.wave search root' m') :=
    List.rel_append hpq h.wave
  have hps' : f.below search root (m + 1) = own ++ (ps ++ f.wave search root m) := by rw [below_succ, hps, List.append_assoc]
  have hqs' : f'.below search root' (m' + 1) = own' ++ (qs ++ f'.wave search root' m') := by rw [below_succ, hqs, List.append_assoc]
  refine ⟨⟨_, _, hps', hqs', hbelow⟩, ?_⟩
  have hfirst : (f'.below search root' m').length = (f.below search root m).length + d := by
    rw [hps, hqs, List.length_append, List.length_append, hlength, hpq.length_eq]
    omega
  have hwave : ∀ p ∈ f.wave search root m, f.Reaches search root.identity p.token.identity := fun _ => reaches_of_mem_wave
  rw [wave_succ, wave_succ, hfirst]
  refine Find.forall₂_fresh (fun _ _ hpq => hpq.identity) (forall₂_named hφ ?_ _) fun p hp => ?_
  · refine ((List.forall₂_and_left _ _).2 ⟨hwave, h.wave⟩).imp fun p q hpq b => ?_
    rw [hpq.2.identity, hagree _ hpq.1]
  · obtain ⟨hown, hown'⟩ := hnew _ (above_of_mem_named hwave hp)
    rw [hps', hqs', Find.identities_append own, Find.identities_append own', List.mem_append, List.mem_append,
      Find.identities_eq_of_shifted hbelow, or_iff_right hown, or_iff_right hown']

/-- So all waves after are alike. -/
theorem Parallel.add (h : Parallel f f' search φ own own' root root' m m') (n : Nat) :
    Parallel f f' search φ own own' root root' (m + n) (m' + n) := by
  induction n with
  | zero => exact h
  | succ n ih => exact ih.succ hφ hlength hagree hnew

end Run

end Ancestry

namespace LevelGraph

variable {f : Ancestry} {g : LevelGraph} {search : Search} {root : Token} {d i n : Nat}

/-! ## What graphs show of a survey -/

theorem filterMap_filter_range (ps : List Find) (c : Option Nat) :
    ((List.range ps.length).filter fun j => ps[j]?.bind (·.child) = c).filterMap (fun j => ps[j]?.map (·.token)) =
      (ps.filter fun p => p.child = c).map (·.token) := by
  induction ps with
  | nil => rfl
  | cons p ps ih =>
    rw [List.length_cons, List.range_succ_eq_map, List.filter_cons, List.filter_cons, List.filter_map]
    simp only [Function.comp_def, List.getElem?_cons_zero, Option.bind_some, List.getElem?_cons_succ]
    split
    · rw [List.filterMap_cons, List.filterMap_map, List.map_cons, ← ih]
      rfl
    · rw [List.filterMap_map, ← ih]
      rfl

/-- The tokens of what a node found are those of the finds that it named. -/
theorem Tree.tokens_parents (h : g.Tree) : g.tokens (g.parents i) = (g.finds.filter fun p => p.child = some i).map (·.token) := by
  rw [h.parents_eq, tokens, ids, ← length_finds, ← filterMap_filter_range]
  simp only [child?_eq_finds, funext fun i => token?_eq_finds (g := g) (i := i)]

variable (scope : Scope) in
/-- After an empty wave a stage has all that the survey finds. -/
theorem finds_stage (h : f.wave search root d = []) (hn : d ≤ n) : (stage f scope search root d).finds = f.below search root n := by
  obtain ⟨-, hsearch, hroot⟩ := charted_stage f scope search root d
  have hnodes := (shows_stage f scope search root d).nodes
  have hcount : (stage f scope search root d).levelCount ≤ d := Nat.le_of_not_lt fun hlt => (lt_levelCount_stage.1 hlt).2 h
  rw [hnodes, hsearch, hroot]
  exact (Ancestry.below_eq_of_le (stage_exhausted scope h).1 (Nat.le_trans hcount hn)).symm

section Build

variable {σ : Type} [Sources σ] {c c' : Context σ} {scope : Scope}

/-- A graph that is built in a stable context has all that the survey finds. -/
theorem finds_of_build (hc : c.Stable f) (hb : build scope search root false c = (.ok g, c')) (hn : maxLevel + 1 ≤ n) :
    g.finds = f.below search root n := by
  obtain ⟨⟨hg, hwave⟩, -⟩ := (build_stage f scope search root).of_ok hc hb
  rw [hg]
  exact finds_stage scope hwave hn

/-- The graphs of two roots with surveys that are parallel from some wave on have parallel finds, apart from what each survey found on its
own. -/
theorem exists_finds_of_parallel {d d' : Context σ} {f' : Ancestry} {φ : Option Nat → Option Nat} {own own' : List Find}
    {root' : Token} {m m' : Nat} {scope' : Scope} {g' : LevelGraph} (hc : c.Stable f) (hd : d.Stable f')
    (hb : build scope search root false c = (.ok g, c')) (hb' : build scope' search root' false d = (.ok g', d'))
    (h : ∀ n, f.Parallel f' search φ own own' root root' (m + n) (m' + n)) :
    ∃ ps qs, g.finds = own ++ ps ∧ g'.finds = own' ++ qs ∧ List.Forall₂ (Find.Shifted φ) ps qs := by
  obtain ⟨ps, qs, hps, hqs, hpq⟩ := (h (maxLevel + 1)).below
  rw [← finds_of_build hc hb (Nat.le_add_left _ _)] at hps
  rw [← finds_of_build hd hb' (Nat.le_add_left _ _)] at hqs
  exact ⟨ps, qs, hps, hqs, hpq⟩

/-- The root of a graph that is built found the first wave. -/
theorem tokens_parents_of_build (hc : c.Stable f) (hb : build scope search root false c = (.ok g, c')) :
    g.tokens (g.parents 0) = (f.wave search root 1).map (·.token) := by
  have htree := (complete_of_build hc hb).1.tree
  rw [htree.tokens_parents, finds_of_build hc hb (n := maxLevel + 2) (by omega), Ancestry.filter_below]

end Build

end LevelGraph
end Lineage
