import Lineage.Proofs.Paths.Agreement
import Lineage.Proofs.Paths.Order

/-!
# All paths, each once and in order

A path graph is explored by asking for parents and for paths, in any order and any number of times (`Explored`). Whatever was asked before,
all paths from a node above which there are finitely many identities are listed: they are the full paths, each of them once, and in the
order in which parents are named. The limit on the length of paths only cuts off. Where it does not, a higher limit leads to the same
list and the same state (`Repeats`), so the limit does not matter from the number of those identities on.
-/

namespace Lineage

namespace Act

variable {ε s α β : Type}

/-- Where an operation ends with a value that has `P`, the other one does the same. -/
def Repeats (P : α → Prop) (r q : Act ε s α) : Prop := ∀ st a st', r st = (.ok a, st') → P a → q st = (.ok a, st')

namespace Repeats

variable {P : α → Prop} {Q : β → Prop} {r q : Act ε s α} {k l : α → Act ε s β}

theorem refl (P : α → Prop) (r : Act ε s α) : Repeats P r r := fun _ _ _ hr _ => hr

theorem trans {p : Act ε s α} (h : Repeats P r q) (h' : Repeats P q p) : Repeats P r p :=
  fun st a st' hr ha => h' st a st' (h st a st' hr ha) ha

/-- One operation after the other. What the first ends with has `P` if the second makes something with `Q` of it. -/
theorem bind (h : Repeats P r q) (hP : ∀ a st b st', k a st = (.ok b, st') → Q b → P a) (hk : ∀ a, Repeats Q (k a) (l a)) :
    Repeats Q (r >>= k) (q >>= l) := by
  intro st b st'' hb hQ
  obtain ⟨a, st', hr, hb⟩ := exists_of_bind_eq_ok hb
  rw [bind_of_ok (h st a st' hr (hP a st' b st'' hb hQ))]
  exact hk a st' b st'' hb hQ

/-- The same where there is nothing to go on with if the first finds nothing. -/
theorem bindSome {r q : Act ε s (Option α)} {k l : Option α → Act ε s (Option β)} (h : Repeats (·.isSome = true) r q)
    (hnone : k none = Pure.pure none) (hk : ∀ a, Repeats (·.isSome = true) (k (some a)) (l (some a))) :
    Repeats (·.isSome = true) (r >>= k) (q >>= l) := by
  have hend : ∀ st b st', k none st = (.ok b, st') → b = none := by
    intro st b st' hb
    rw [hnone] at hb
    cases hb
    rfl
  refine h.bind (fun a st b st' hb hsome => ?_) fun a => ?_
  · cases a with
    | none => rwa [hend st b st' hb] at hsome
    | some a => rfl
  · cases a with
    | none =>
      intro st b st' hb hsome
      rw [hend st b st' hb] at hsome
      cases hsome
    | some a => exact hk a

/-- What is logged around them does not matter. -/
theorem logged {s α : Type} {P : α → Prop} {r q : Run s α} (h : Repeats P r q) {emit : Log.Event → Run s Unit} {target op : String}
    {fields : List (String × Log.Value)} {onSuccess : α → List (String × Log.Value)} {onFailure : List (String × Log.Value)} :
    Repeats P (Context.loggedBy emit target op fields onSuccess onFailure r)
      (Context.loggedBy emit target op fields onSuccess onFailure q) := by
  have hattempt : Repeats (fun x => ∃ a, x = .ok a ∧ P a) (Act.attempt r) (Act.attempt q) := by
    rintro st x st' hx ⟨a, rfl, ha⟩
    rcases hr : r st with ⟨y, st₁⟩
    simp only [Act.attempt, hr] at hx
    cases hx
    simp only [Act.attempt, h st a st' hr ha]
  refine (refl (fun _ => True) _).bind (fun _ _ _ _ _ _ => trivial) fun _ => hattempt.bind (fun x st b st' hb hQ => ?_) fun x => refl P _
  cases x with
  | ok a =>
    obtain ⟨_, _, -, hb⟩ := exists_of_bind_eq_ok hb
    cases hb
    exact ⟨b, rfl, hQ⟩
  | error e =>
    obtain ⟨_, _, -, hb⟩ := exists_of_bind_eq_ok hb
    cases hb

end Repeats
end Act

namespace PathGraph

variable {f : Ancestry} {g : PathGraph} {i : NodeId} {t : Token}

theorem token_eq_ok_iff : g.token i = .ok t ↔ ∃ n, g.nodes[i]? = some n ∧ n.token = t := by
  unfold token node
  cases g.nodes[i]? with
  | none => simp [Except.map]
  | some n => simp [Except.map]

/-- A node with a token calls what the token names. -/
theorem calls_of_token (h : g.token i = .ok t) : g.Calls i t.identity := by
  obtain ⟨n, hn, rfl⟩ := token_eq_ok_iff.1 h
  exact ⟨n, hn, rfl⟩

theorem lasting_token (i : NodeId) (t : Token) : Lasting fun g => g.token i = .ok t := by
  intro g g' hext h
  obtain ⟨n, hn, rfl⟩ := token_eq_ok_iff.1 h
  obtain ⟨n', hn', ht, -⟩ := hext.nodes i n hn
  exact token_eq_ok_iff.2 ⟨n', hn', ht⟩

theorem lasting_root (root : Token) : Lasting fun g => g.root = root := fun _ _ hext h => hext.root.trans h

/-- Every token of some nodes is the token of a node. -/
theorem exists_of_mem_tokens {ids : List NodeId} (h : t ∈ g.tokens ids) : ∃ i, g.token i = .ok t := by
  obtain ⟨i, -, hi⟩ := List.mem_filterMap.1 h
  obtain ⟨n, hn, rfl⟩ := Option.map_eq_some_iff.1 hi
  exact ⟨i, token_eq_ok_iff.2 ⟨n, hn, rfl⟩⟩

/-- In a sound graph the node that is found for a token is the one that calls what the token names. -/
theorem Sound.find?_eq_some_iff (h : g.Sound f) : g.find? t = some i ↔ g.Calls i t.identity := by
  have hfound : ∀ {j}, g.find? t = some j → g.Calls j t.identity := fun hj => by
    obtain ⟨hlt, hsame, -⟩ := Array.findIdx?_eq_some_iff_getElem.1 hj
    exact ⟨_, Array.getElem?_eq_getElem hlt, Token.same_iff.1 hsame⟩
  refine ⟨hfound, fun hi => ?_⟩
  cases hf : g.find? t with
  | some j => rw [h.distinct i j _ hi (hfound hf)]
  | none =>
    obtain ⟨n, hn, hx⟩ := hi
    have hno := Array.findIdx?_eq_none_iff.1 hf n (Array.mem_of_getElem? hn)
    rw [Token.same_iff.2 hx] at hno
    cases hno

end PathGraph

namespace Exploring

variable {σ : Type} [Sources σ] {f : Ancestry} {s : Exploring σ} {i last : NodeId} {before : List NodeId} {t : Token} {m n limit : Nat}

open PathGraph

/-! ## Higher limits -/

omit [Sources σ] in
theorem gather_repeats {α β : Type} {p q : α → Run (Exploring σ) (Option (List β))}
    (h : ∀ a, Act.Repeats (·.isSome = true) (p a) (q a)) (as : List α) :
    Act.Repeats (·.isSome = true) (gather p as) (gather q as) := by
  induction as with
  | nil => exact Act.Repeats.refl _ _
  | cons a as ih => exact (h a).bindSome rfl fun bs => ih.bindSome rfl fun bs' => Act.Repeats.refl _ _

theorem pathsWithin_repeats_succ (n : Nat) (before : List NodeId) (last : NodeId) :
    Act.Repeats (·.isSome = true) (pathsWithin n before last : Run (Exploring σ) _) (pathsWithin (n + 1) before last) := by
  induction n generalizing before last with
  | zero =>
    intro s a s' hr hsome
    cases hr
    cases hsome
  | succ n ih =>
    refine (Act.Repeats.refl (fun _ => True) _).bind (fun _ _ _ _ _ _ => trivial) fun ps => ?_
    dsimp only
    split
    · exact Act.Repeats.refl _ _
    · exact (gather_repeats (fun i => ih (last :: before) i) _).bindSome rfl fun paths => Act.Repeats.refl _ _

/-- With a higher limit the paths that are listed are the same, and so is the state that is left. -/
theorem pathsWithin_repeats (h : n ≤ m) (before : List NodeId) (last : NodeId) :
    Act.Repeats (·.isSome = true) (pathsWithin n before last : Run (Exploring σ) _) (pathsWithin m before last) := by
  induction h with
  | refl => exact Act.Repeats.refl _ _
  | step _ ih => exact ih.trans (pathsWithin_repeats_succ _ before last)

theorem allPaths_repeats (h : n ≤ m) (i : NodeId) :
    Act.Repeats (·.isSome = true) (allPaths n i : Run (Exploring σ) (Option (List (List Token)))) (allPaths m i) := by
  refine (Act.Repeats.refl (fun _ => True) _).bind (fun _ _ _ _ _ _ => trivial) fun s => ?_
  refine (Act.Repeats.refl (fun _ => True) _).bind (fun _ _ _ _ _ _ => trivial) fun t => ?_
  refine Act.Repeats.bind (P := fun found => found.1.isSome = true) (Act.Repeats.logged ?_) ?_ fun found => Act.Repeats.refl _ _
  · refine (pathsWithin_repeats h [] i).bind ?_ fun paths => Act.Repeats.refl _ _
    intro paths s found s' hr hsome
    cases hr
    simpa using hsome
  · intro found s paths s' hr hsome
    cases hr
    exact hsome

/-! ## The graphs that exploring leads to -/

/-- Where an operation explores, a sound graph stays sound, and its root stays its root. -/
theorem Explores.end_sound {total : Prop} {α : Type} {B : PathGraph → Prop} {Q : α → PathGraph → Prop} {r : Run (Exploring σ) α}
    (h : Explores f total B r Q) (hs : Sound f total s) (hB : B s.graph) :
    (r s).2.graph.Sound f ∧ (r s).2.graph.root = s.graph.root := by
  rcases (h _ (lasting_root s.graph.root)).outcome ⟨hs, rfl, hB⟩ with ⟨a, s', hr, hs', hroot, -⟩ | ⟨e, s', hr, hs', hroot, -⟩
  · rw [hr]
    exact ⟨hs'.graph, hroot⟩
  · rw [hr]
    exact ⟨hs'.graph, hroot⟩

/-- A node is there, or nothing is done. -/
theorem calls_or_unchanged (s : Exploring σ) (i : NodeId) :
    (∃ x, s.graph.Calls i x) ∨ (parents i s).2 = s ∧ ∀ limit, (allPaths limit i s).2 = s := by
  cases hi : s.graph.node i with
  | ok n => exact Or.inl ⟨_, n, node_eq_ok_iff.1 hi, rfl⟩
  | error e =>
    have htoken : s.graph.token i = .error e := by rw [PathGraph.token, hi]; rfl
    refine Or.inr ⟨?_, fun limit => ?_⟩
    · rw [parents, Act.bind_of_ok (Act.get_apply s), hi]
      rfl
    · rw [allPaths, Act.bind_of_ok (Act.get_apply s), htoken]
      rfl

end Exploring

namespace PathGraph

/-- The graphs of a root that exploring leads to. Each call may meet another stable context, and may be about a node that is not there. -/
inductive Explored (f : Ancestry) (root : Token) : PathGraph → Prop where
  | start : Explored f root (start root)
  | parents {σ : Type} [Sources σ] {g : PathGraph} {c : Context σ} (i : NodeId) :
      Explored f root g → c.Stable f → Explored f root (Exploring.parents i ⟨g, c⟩).2.graph
  | allPaths {σ : Type} [Sources σ] {g : PathGraph} {c : Context σ} (limit : Nat) (i : NodeId) :
      Explored f root g → c.Stable f → Explored f root (Exploring.allPaths limit i ⟨g, c⟩).2.graph

variable {f : Ancestry} {root : Token} {g : PathGraph}

/-- They are sound. -/
theorem Explored.sound (h : Explored f root g) : g.Sound f ∧ g.root = root := by
  induction h with
  | start => exact ⟨sound_start f root, rfl⟩
  | @parents σ _ g c i _ hc ih =>
    rcases Exploring.calls_or_unchanged ⟨g, c⟩ i with ⟨x, hx⟩ | ⟨heq, -⟩
    · obtain ⟨hsound, hroot⟩ := (Exploring.parents_spec i x).end_sound ⟨ih.1, hc⟩ hx
      exact ⟨hsound, hroot.trans ih.2⟩
    · rw [heq]
      exact ih
  | @allPaths σ _ g c limit i _ hc ih =>
    rcases Exploring.calls_or_unchanged ⟨g, c⟩ i with ⟨x, hx⟩ | ⟨-, heq⟩
    · obtain ⟨hsound, hroot⟩ := (Exploring.allPaths_spec limit i x).end_sound ⟨ih.1, hc⟩ hx
      exact ⟨hsound, hroot.trans ih.2⟩
    · rw [heq]
      exact ih

end PathGraph

namespace Exploring

variable {σ : Type} [Sources σ] {f : Ancestry} {i : NodeId} {t : Token}

open PathGraph

/-! ## All paths -/

/-- Every token on a listed path is the token of a node. -/
theorem allPaths_drawn (limit : Nat) (i : NodeId) :
    Act.Spec (fun _ => True) (allPaths limit i : Run (Exploring σ) (Option (List (List Token))))
      (fun r s => ∀ paths, r = some paths → ∀ path ∈ paths, ∀ t ∈ path, ∃ j, s.graph.token j = .ok t) fun _ _ => True := by
  have hany : ∀ {α : Type} (r : Run (Exploring σ) α), Act.Spec (fun _ => True) r (fun _ _ => True) fun _ _ => True :=
    fun r => Act.Keeps.spec fun _ _ => trivial
  have hlist : Act.Spec (fun _ => True)
      (do
        let paths ← pathsWithin limit [] i
        let g := (← Act.get).graph
        pure (paths.map (·.map g.tokens), g.size) : Run (Exploring σ) (Option (List (List Token)) × Nat))
      (fun r s => ∀ paths, r.1 = some paths → ∀ path ∈ paths, ∀ t ∈ path, ∃ j, s.graph.token j = .ok t) fun _ _ => True := by
    refine (hany _).bind fun ids => Act.Spec.get fun s _ => Act.Spec.pure ?_
    rintro _ rfl paths hpaths path hpath t ht
    obtain ⟨list, -, rfl⟩ := Option.map_eq_some_iff.1 hpaths
    obtain ⟨ids, -, rfl⟩ := List.mem_map.1 hpath
    exact exists_of_mem_tokens ht
  refine Act.Spec.get fun s _ => ((hany _).of_state trivial).bind fun t => ?_
  refine (Context.loggedBy_spec hlist (fun _ => ?_) (fun _ _ => ?_) fun _ _ => ?_).bind fun listed => Act.Spec.pure fun _ h => h
  · exact fun _ _ => trivial
  · exact fun _ h => h
  · exact fun _ _ => trivial

/-- From a node above which there are finitely many identities all paths are listed, whatever was asked before and whatever limit is at
least the number of the identities that are reached. They start with the token of the node, and they are the full paths of what it
names, each of them once, and in the order in which parents are named. In the end every identity that is reached has a node, and the
node is expanded. -/
theorem allPaths_of_finite {c : Context σ} {root : Token} {g : PathGraph} (hg : Explored f root g) (hc : c.Stable f)
    (hi : g.token i = .ok t) (hfinite : {y | f.Reaches .both t.identity y}.Finite) :
    ∃ paths s, (∀ limit, {y | f.Reaches .both t.identity y}.ncard ≤ limit → allPaths limit i ⟨g, c⟩ = (.ok (some paths), s)) ∧
      (∀ path ∈ paths, path.head? = some t) ∧
      (∀ path, path ∈ paths.map (·.map Token.identity) ↔ f.FullPath t.identity path) ∧
      (paths.map (·.map Token.identity)).Nodup ∧
      (paths.map (·.map Token.identity)).Pairwise f.Precedes ∧
      ∀ u, f.Reaches .both t.identity u.identity → ∃ j, s.graph.find? u = some j ∧ s.graph.isExpanded j = true := by
  obtain ⟨within, hmem, hwithin, hlength⟩ := Ancestry.exists_within hfinite
  rw [← hlength]
  have hs : Sound f True ⟨g, c⟩ := ⟨hg.sound.1, hc⟩
  have hcalls := calls_of_token hi
  obtain ⟨list, hlist⟩ := Ancestry.exists_pathsFrom hwithin hmem (n := within.length) List.not_mem_nil (by simp)
  rcases (allPaths_spec within.length i t.identity _ (lasting_token i t)).outcome ⟨hs, hi, hcalls⟩ with
    ⟨r, s, hr, hs', hi', hspells⟩ | ⟨e, s, -, -, -, hno⟩
  · have hmap := hspells.identities
    rw [hlist] at hmap
    obtain ⟨paths, rfl, hpaths⟩ := Option.map_eq_some_iff.1 hmap
    have hfull : ∀ path, path ∈ list ↔ f.FullPath t.identity path := fun path =>
      (Ancestry.mem_pathsFrom_iff hlist).trans Ancestry.maximal_iff_fullPath
    have horder := Ancestry.pairwise_pathsFrom hlist
    refine ⟨paths, s, fun limit hlimit => allPaths_repeats hlimit i _ _ s hr rfl, fun path hpath => ?_, ?_, ?_, ?_, fun u hu => ?_⟩
    · -- the first token is that of a node which names what `i` names, so it is the token of `i`
      have hstarts := ((hfull _).1 (hpaths ▸ List.mem_map_of_mem hpath)).starts
      rw [List.head?_map] at hstarts
      obtain ⟨u, hu, hut⟩ := Option.map_eq_some_iff.1 hstarts
      obtain ⟨j, hj⟩ := (allPaths_drawn within.length i).of_ok trivial hr paths rfl path hpath u (List.mem_of_mem_head? hu)
      rw [hs'.graph.distinct j i u.identity (calls_of_token hj) (hut ▸ calls_of_token hi'), hi'] at hj
      cases hj
      exact hu
    · rw [hpaths]
      exact hfull
    · rw [hpaths]
      exact Ancestry.nodup_of_precedes horder
    · rw [hpaths]
      exact horder
    · obtain ⟨path, hpath, hu⟩ := (Ancestry.exists_mem_maximal_iff hwithin hmem).2 hu
      obtain ⟨j, hj, hexpanded⟩ := hspells.expanded list hlist path ((Ancestry.mem_pathsFrom_iff hlist).2 hpath) _ hu
      exact ⟨j, hs'.graph.find?_eq_some_iff.2 hj, hexpanded⟩
  · exact absurd trivial hno

/-- A page with two ways to the fourth page, which leads back to the first and to itself. The parents of the first were asked for before;
the two paths from it are listed, the one through its native parent first. -/
theorem allPaths_of_finite_cycle :
    let a := Token.element "page" "site" "1"
    let b := Token.element "page" "site" "2"
    let x := Token.element "page" "site" "3"
    let z := Token.element "page" "site" "4"
    let l := ((Listing.empty.add a b).add b z).add x z
    let h := ((Hooks.empty.add a x).add z z).add z a
    let f := Ancestry.ofTables l h
    let c := Context.new (Catalog.ofTables l h) {}
    let g := (parents 0 ⟨PathGraph.start a, c⟩).2.graph
    PathGraph.Explored f a g ∧ c.Stable f ∧ g.token 0 = .ok a ∧ {y | f.Reaches .both a.identity y}.Finite ∧
      ∃ paths s, allPaths PathGraph.pathLimit 0 ⟨g, c⟩ = (.ok (some paths), s) ∧
        (∀ path, path ∈ paths.map (·.map Token.identity) ↔ f.FullPath a.identity path) ∧
        (paths.map (·.map Token.identity)).Pairwise f.Precedes ∧
        ∃ j, s.graph.find? z = some j ∧ s.graph.isExpanded j = true := by
  intro a b x z l h f c g
  have hc : c.Stable f := Catalog.stable_ofTables l h {}
  have hg : PathGraph.Explored f a g := .parents 0 .start hc
  have hi : g.token 0 = .ok a := by decide +kernel
  have hwithin : ∀ y ∈ [a.identity, b.identity, x.identity, z.identity], ∀ t ∈ f.parents .both y,
      t.identity ∈ [a.identity, b.identity, x.identity, z.identity] := by decide +kernel
  obtain ⟨hfinite, hle⟩ := Ancestry.finite_of_within List.mem_cons_self hwithin
  have hz : f.Reaches .both a.identity z.identity :=
    ⟨2, ((Ancestry.Chain.refl _).snoc ⟨b, by decide +kernel, rfl⟩).snoc ⟨z, by decide +kernel, rfl⟩⟩
  obtain ⟨paths, s, hr, -, hfull, -, horder, hexpanded⟩ := allPaths_of_finite hg hc hi hfinite
  exact ⟨hg, hc, hi, hfinite, paths, s, hr _ (hle.trans (by decide)), hfull, horder, hexpanded z hz⟩

end Exploring
end Lineage
