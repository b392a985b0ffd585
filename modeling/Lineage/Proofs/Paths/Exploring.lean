import Lineage.Proofs.Faithful
import Lineage.Proofs.Paths.Links

/-!
# Exploring a path graph

What is explored in a faithful context is what the ancestry says. `Explores` is the specification that all operations share: from a sound
graph they lead to a sound one, what lasts while a graph is extended is as it was, and they fail only if the sources may fail. The
specifications of the operations follow their definitions; the last one says that all paths from a node are the maximal paths that
`Ancestry.pathsFrom` lists, and that every node on them is expanded in the end.
-/

namespace Lineage

namespace PathGraph

/-- What is true of a graph stays true when it is extended. -/
def Lasting (A : PathGraph → Prop) : Prop := ∀ g g' : PathGraph, g.Extends g' → A g → A g'

/-- A node that names an identity and is expanded. -/
def Knows (g : PathGraph) (i : NodeId) (x : Identity) : Prop := g.Calls i x ∧ g.isExpanded i = true

/-- Paths of expanded nodes, beside the paths of what they name. -/
abbrev Listed (g : PathGraph) : Option (List (List NodeId)) → Option (List (List Identity)) → Prop :=
  Option.Rel (List.Forall₂ (List.Forall₂ g.Knows))

/-- Paths of tokens, beside the paths of their identities, each of which an expanded node names. -/
structure Spells (g : PathGraph) (paths : Option (List (List Token))) (list : Option (List (List Identity))) : Prop where
  identities : paths.map (·.map (·.map Token.identity)) = list
  expanded : ∀ l, list = some l → ∀ path ∈ l, ∀ x ∈ path, ∃ i, g.Knows i x

variable {g : PathGraph} {A B : PathGraph → Prop} {i : NodeId} {x : Identity} {ids : List NodeId} {xs : List Identity}

theorem Lasting.and (hA : Lasting A) (hB : Lasting B) : Lasting fun g => A g ∧ B g :=
  fun g g' h hg => ⟨hA g g' h hg.1, hB g g' h hg.2⟩

theorem lasting_calls (i : NodeId) (x : Identity) : Lasting fun g => g.Calls i x := fun _ _ h => h.calls

theorem lasting_names (ids : List NodeId) (xs : List Identity) : Lasting fun g => g.Names ids xs := fun _ _ h => h.names

theorem lasting_knows (i : NodeId) (x : Identity) : Lasting fun g => g.Knows i x :=
  fun _ _ h hi => ⟨h.calls hi.1, h.isExpanded hi.2⟩

theorem lasting_reaches (f : Ancestry) (x : Identity) : Lasting fun g => f.Reaches .both g.root.identity x := by
  intro g g' h hx
  rw [h.root]
  exact hx

theorem lasting_listed (paths : List (List NodeId)) (list : List (List Identity)) :
    Lasting fun g => List.Forall₂ (List.Forall₂ g.Knows) paths list :=
  fun g g' h hl => hl.imp fun _ _ hp => hp.imp fun i x => lasting_knows i x g g' h

theorem isEmpty_eq_of_names (h : g.Names ids xs) : ids.isEmpty = xs.isEmpty := by cases h <;> rfl

/-- The tokens of nodes are named as the nodes name them. -/
theorem identities_tokens (h : g.Names ids xs) : (g.tokens ids).map Token.identity = xs := by
  induction h with
  | nil => rfl
  | @cons i x ids xs hi _ ih =>
    obtain ⟨n, hn, rfl⟩ := hi
    have hcons : g.tokens (i :: ids) = n.token :: g.tokens ids := by simp [tokens, hn]
    rw [hcons, List.map_cons, ih]

theorem names_of_knows (h : List.Forall₂ g.Knows ids xs) : g.Names ids xs := h.imp fun _ _ hi => hi.1

/-- Every identity on a listed path is one that an expanded node names. -/
theorem exists_knows {paths : List (List NodeId)} {list : List (List Identity)}
    (h : List.Forall₂ (List.Forall₂ g.Knows) paths list) {path : List Identity} (hpath : path ∈ list) (hx : x ∈ path) :
    ∃ i, g.Knows i x := by
  obtain ⟨k, hk, rfl⟩ := List.getElem_of_mem hpath
  obtain ⟨j, hj, rfl⟩ := List.getElem_of_mem hx
  have hids := h.get (h.length_eq ▸ hk) hk
  exact ⟨_, hids.get (hids.length_eq ▸ hj) hj⟩

/-- The tokens of listed paths are named as the paths are. -/
theorem identities_listed {paths : List (List NodeId)} {list : List (List Identity)}
    (h : List.Forall₂ (List.Forall₂ g.Knows) paths list) : (paths.map g.tokens).map (·.map Token.identity) = list := by
  induction h with
  | nil => rfl
  | cons hpath _ ih => rw [List.map_cons, List.map_cons, ih, identities_tokens (names_of_knows hpath)]

theorem Listed.spells {paths : Option (List (List NodeId))} {list : Option (List (List Identity))} (h : g.Listed paths list) :
    g.Spells (paths.map (·.map g.tokens)) list := by
  cases h with
  | none => exact ⟨rfl, fun _ hl => nomatch hl⟩
  | some h =>
    refine ⟨congrArg some (identities_listed h), fun l hl path hpath x hx => ?_⟩
    cases hl
    exact exists_knows h hpath hx

end PathGraph

namespace Exploring

variable {σ : Type} [Sources σ] {f : Ancestry} {total : Prop} {α β : Type} {A B C : PathGraph → Prop} {Q R : α → PathGraph → Prop}
  {i : NodeId} {x : Identity} {found ids before : List NodeId} {xs bs : List Identity} {t : Token}

open PathGraph

/-! ## The specification of exploring -/

/-- A sound graph, explored in a faithful context. -/
structure Sound (f : Ancestry) (total : Prop) (s : Exploring σ) : Prop where
  graph : s.graph.Sound f
  context : s.context.Faithful f total

/-- From a sound graph with `B` an operation leads to a sound graph, with `Q` if it ends with a value; it fails only if the sources may.
Whatever lasts still holds at its end. -/
def Explores (f : Ancestry) (total : Prop) (B : PathGraph → Prop) (r : Run (Exploring σ) α) (Q : α → PathGraph → Prop) : Prop :=
  ∀ A, Lasting A → Act.Spec (fun s => Sound f total s ∧ A s.graph ∧ B s.graph) r
    (fun a s => Sound f total s ∧ A s.graph ∧ Q a s.graph) fun _ s => Sound f total s ∧ A s.graph ∧ ¬total

namespace Explores

theorem pure {a : α} (h : ∀ g, B g → Q a g) : Explores f total B (Pure.pure a : Run (Exploring σ) α) Q :=
  fun _ _ => Act.Spec.pure fun s hs => ⟨hs.1, hs.2.1, h s.graph hs.2.2⟩

theorem bind {r : Run (Exploring σ) α} {k : α → Run (Exploring σ) β} {Q : β → PathGraph → Prop} (h : Explores f total B r R)
    (hk : ∀ a, Explores f total (R a) (k a) Q) : Explores f total B (r >>= k) Q :=
  fun A hA => (h A hA).bind fun a => hk a A hA

theorem weaken {r : Run (Exploring σ) α} (h : Explores f total B r Q) (hB : ∀ g, C g → B g) (hQ : ∀ a g, Q a g → R a g) :
    Explores f total C r R :=
  fun A hA => (h A hA).weaken (fun s hs => ⟨hs.1, hs.2.1, hB s.graph hs.2.2⟩) (fun a s hs => ⟨hs.1, hs.2.1, hQ a s.graph hs.2.2⟩)
    fun _ _ h => h

/-- What lasts is not lost. -/
theorem frame {r : Run (Exploring σ) α} (h : Explores f total B r Q) (hC : Lasting C) :
    Explores f total (fun g => C g ∧ B g) r fun a g => C g ∧ Q a g := by
  intro A hA
  refine (h (fun g => A g ∧ C g) (hA.and hC)).weaken ?_ ?_ ?_
  · exact fun s hs => ⟨hs.1, ⟨hs.2.1, hs.2.2.1⟩, hs.2.2.2⟩
  · exact fun a s hs => ⟨hs.1, hs.2.1.1, hs.2.1.2, hs.2.2⟩
  · exact fun _ s hs => ⟨hs.1, hs.2.1.1, hs.2.2⟩

/-- A fact that does not depend on the graph is at hand for the rest. -/
theorem given {P : Prop} {r : Run (Exploring σ) α} (h : P → Explores f total B r Q) : Explores f total (fun g => P ∧ B g) r Q :=
  fun A hA s hs => h hs.2.2.1 A hA s ⟨hs.1, hs.2.1, hs.2.2.2⟩

/-- Where nothing can begin, anything may be said. -/
theorem vacuous {r : Run (Exploring σ) α} (h : ∀ g, ¬B g) : Explores f total B r Q :=
  fun _ _ s hs => absurd hs.2.2 (h s.graph)

/-- The graph is sound. -/
theorem of_sound {r : Run (Exploring σ) α} (h : Explores f total (fun g => g.Sound f ∧ B g) r Q) : Explores f total B r Q :=
  fun A hA s hs => h A hA s ⟨hs.1, hs.2.1, hs.1.graph, hs.2.2⟩

end Explores

/-- What is logged leaves the graph as it is. -/
theorem emit_spec (A : PathGraph → Prop) (e : Log.Event) :
    Act.Spec (fun s => Sound f total s ∧ A s.graph) (inContext (Context.emit e) : Run (Exploring σ) Unit)
      (fun _ s => Sound f total s ∧ A s.graph) fun _ _ => False :=
  fun _ hs => ⟨⟨hs.1.graph, hs.1.context.log _⟩, hs.2⟩

/-- An operation that is logged explores as it does without the log. -/
theorem Explores.logged {r : Run (Exploring σ) α} (h : Explores f total B r Q) {target op : String} {fields : List (String × Log.Value)}
    {onSuccess : α → List (String × Log.Value)} {onFailure : List (String × Log.Value)} :
    Explores f total B (Context.loggedBy (fun e => inContext (Context.emit e)) target op fields onSuccess onFailure r) Q := by
  intro A hA
  refine Context.loggedBy_spec (h A hA) (emit_spec fun g => A g ∧ B g) (fun a => ?_) fun _ => emit_spec fun g => A g ∧ ¬total
  exact emit_spec fun g => A g ∧ Q a g

/-- What is read of the graph first is there to be read. -/
theorem Explores.read {q : PathGraph → Except Error β} {k : β → Run (Exploring σ) α} (hq : ∀ g, B g → ∃ b, q g = .ok b)
    (hk : ∀ b, Explores f total (fun g => q g = .ok b ∧ B g) (k b) Q) :
    Explores f total B (do k (← Act.ofExcept (q (← Act.get).graph))) Q := by
  refine fun A hA => Act.Spec.get fun s hs => ?_
  obtain ⟨b, hb⟩ := hq s.graph hs.2.2
  refine (Act.Spec.ofExcept hb).bind fun b' => Act.Spec.given ?_
  rintro rfl
  exact (hk b' A hA).of_state ⟨hs.1, hs.2.1, hb, hs.2.2⟩

/-! ## Expanding a node -/

theorem ask_spec (category : Category) (t : Token) :
    Explores f total B (inContext (Context.ask category t) : Run (Exploring σ) Answer) fun a g => a = f category t.identity ∧ B g := by
  rintro A - s ⟨hs, hA, hB⟩
  refine (Context.ask_spec category t).on hs.context (fun a c hc => ?_) (fun e c hc => ?_) s rfl
  · exact ⟨⟨hs.graph, hc.2⟩, hA, hc.1, hB⟩
  · exact ⟨⟨hs.graph, hc.1⟩, hA, hc.2⟩

theorem link_spec (ts : List Token) :
    Explores f total (fun g => g.Names found xs ∧ ∀ t ∈ ts, f.Reaches .both g.root.identity t.identity)
      (link found ts : Run (Exploring σ) (List NodeId)) fun ids g => g.Names ids (Ancestry.adding xs ts) := by
  rintro A hA s ⟨hs, hA', hfound, hts⟩
  obtain ⟨hsound, hextends, hnames⟩ := hs.graph.link hfound hts
  exact ⟨⟨hsound, hs.context⟩, hA _ _ hextends hA', hnames⟩

/-- The answers of some categories about a reached token are linked in order. -/
theorem askAll_spec (t : Token) (cs : List Category) :
    Explores f total (fun g => f.Reaches .both g.root.identity t.identity ∧ g.Names found xs)
      (askAll t cs found : Run (Exploring σ) (List NodeId))
      fun ids g => g.Names ids (Ancestry.adding xs (cs.flatMap fun c => (f c t.identity).getD [])) := by
  induction cs generalizing found xs with
  | nil => exact Explores.pure fun g hg => hg.2
  | cons c cs ih =>
    refine (ask_spec c t).bind fun a => Explores.given fun ha => ?_
    subst ha
    have hnamed : ∀ g : PathGraph, f.Reaches .both g.root.identity t.identity →
        ∀ u ∈ (f c t.identity).getD [], f.Reaches .both g.root.identity u.identity :=
      fun g hg u hu => hg.trans (Ancestry.parent_both_iff.2 ⟨c, u, hu, rfl⟩).above.reaches
    refine (((link_spec _).frame (lasting_reaches f t.identity)).weaken (fun g hg => ⟨hg.1, hg.2, hnamed g hg.1⟩)
      fun _ _ hg => hg).bind fun found' => ?_
    rw [List.flatMap_cons, Ancestry.adding_append]
    exact ih

/-- Under the search for both, the parents are those that the categories name in the order in which they are asked. -/
theorem parents_both (f : Ancestry) (x : Identity) : f.parents .both x = askingOrder.flatMap fun c => (f c x).getD [] := by
  simp [Ancestry.parents, Search.branches, Search.includesNative, Search.includesHooked, Ancestry.onBranch, askingOrder,
    Answer.getD_merge]

theorem settle_spec (i : NodeId) (ps : List NodeId) :
    Explores f total (fun g => g.Calls i x ∧ g.Names ps (f.parentIds x))
      (.modify fun s => { s with graph := s.graph.settle i ps } : Run (Exploring σ) Unit)
      fun _ g => g.Knows i x ∧ g.Names ps (f.parentIds x) := by
  rintro A hA s ⟨hs, hA', hi, hps⟩
  have hextends := hs.graph.extends_settle hi hps
  exact ⟨⟨hs.graph.settle hi hps, hs.context⟩, hA _ _ hextends hA', ⟨hextends.calls hi, isExpanded_settle hi ps⟩,
    hextends.names hps⟩

/-- A node is expanded by asking for the parents of its token. -/
theorem expand_spec (i : NodeId) (t : Token) :
    Explores f total (fun g => g.Calls i t.identity)
      (do
        let ps ← askAll t askingOrder []
        Act.modify fun s => { s with graph := s.graph.settle i ps }
        pure ps : Run (Exploring σ) (List NodeId))
      fun ps g => g.Knows i t.identity ∧ g.Names ps (f.parentIds t.identity) := by
  have hask : Explores f total (fun g => g.Calls i t.identity) (askAll t askingOrder [] : Run (Exploring σ) (List NodeId))
      fun ps g => g.Calls i t.identity ∧ g.Names ps (f.parentIds t.identity) := by
    rw [Ancestry.parentIds, parents_both]
    refine Explores.of_sound (((askAll_spec t askingOrder).frame (lasting_calls i t.identity)).weaken ?_ fun _ _ hg => hg)
    exact fun g hg => ⟨hg.2, hg.1.reached i _ hg.2, List.Forall₂.nil⟩
  exact hask.bind fun ps => (settle_spec i ps).bind fun _ => Explores.pure fun g hg => hg

/-- The parents of a node are nodes for the parents of what it names, and the node is expanded from then on. -/
theorem parents_spec (i : NodeId) (x : Identity) :
    Explores f total (fun g => g.Calls i x) (parents i : Run (Exploring σ) (List NodeId))
      fun ps g => g.Knows i x ∧ g.Names ps (f.parentIds x) := by
  refine Explores.read (q := fun g => g.node i) (fun g hg => ?_) fun n => ?_
  · obtain ⟨n, hn, -⟩ := hg
    exact ⟨n, node_eq_ok_iff.2 hn⟩
  -- the token of the node that was read is what the node names
  have hx : ∀ g : PathGraph, g.node i = .ok n ∧ g.Calls i x → n.token.identity = x ∧ g.nodes[i]? = some n ∧ g.Calls i x :=
    fun g hg => ⟨Calls.unique ⟨n, node_eq_ok_iff.1 hg.1, rfl⟩ hg.2, node_eq_ok_iff.1 hg.1, hg.2⟩
  refine Explores.weaken (Explores.given fun hx => ?_) hx fun _ _ hg => hg
  subst hx
  cases hps : n.parents with
  | some ps =>
    refine Explores.of_sound (Explores.pure fun g hg => ?_)
    obtain ⟨hsound, hn, hcalls⟩ := hg
    exact ⟨⟨hcalls, isExpanded_iff.2 ⟨n, ps, hn, hps⟩⟩, hsound.linked i n ps hn hps⟩
  | none => exact (expand_spec i n.token).weaken (fun g hg => hg.2) fun _ _ hg => hg

/-! ## Listing paths -/

/-- What is done with listed paths is done if there are any. -/
theorem Explores.listed {r : Run (Exploring σ) (Option (List (List NodeId)))} {list : Option (List (List Identity))}
    {k : Option (List (List NodeId)) → Run (Exploring σ) (Option (List (List NodeId)))}
    {l : List (List Identity) → Option (List (List Identity))}
    (h : Explores f total B r fun r g => C g ∧ g.Listed r list) (hnone : k none = Pure.pure none)
    (hsome : ∀ paths list, Explores f total (fun g => C g ∧ List.Forall₂ (List.Forall₂ g.Knows) paths list) (k (some paths))
      fun r g => g.Listed r (l list)) :
    Explores f total B (r >>= k) fun r g => g.Listed r (list.bind l) := by
  refine h.bind fun r => ?_
  cases r with
  | none =>
    rw [hnone]
    refine Explores.pure fun g hg => ?_
    cases list with
    | none => exact Option.Rel.none
    | some _ => exact nomatch hg.2
  | some paths =>
    cases list with
    | none => exact Explores.vacuous fun g hg => nomatch hg.2
    | some list => exact (hsome paths list).weaken (fun g hg => ⟨hg.1, Option.rel_some_some.1 hg.2⟩) fun _ _ hg => hg

/-- Where the paths through each of some nodes are listed as they should be, so are those through all of them. -/
theorem gather_spec {q : NodeId → Run (Exploring σ) (Option (List (List NodeId)))} {list : Identity → Option (List (List Identity))}
    (hB : Lasting B) (hq : ∀ i x, Explores f total (fun g => B g ∧ g.Calls i x) (q i) fun r g => g.Listed r (list x))
    (ids : List NodeId) (xs : List Identity) :
    Explores f total (fun g => B g ∧ g.Names ids xs) (gather q ids) fun r g => g.Listed r (Ancestry.gathered list xs) := by
  induction ids generalizing xs with
  | nil =>
    refine Explores.pure fun g hg => ?_
    rw [List.forall₂_nil_left_iff.1 hg.2]
    exact Option.Rel.some List.Forall₂.nil
  | cons i ids ih =>
    cases xs with
    | nil => exact Explores.vacuous fun g hg => nomatch hg.2
    | cons x xs =>
      have hfirst : Explores f total (fun g => B g ∧ g.Names (i :: ids) (x :: xs)) (q i)
          fun r g => (B g ∧ g.Names ids xs) ∧ g.Listed r (list x) :=
        ((hq i x).frame (hB.and (lasting_names ids xs))).weaken (fun g hg => by
          obtain ⟨hB, hi, hids⟩ := And.imp_right List.forall₂_cons.1 hg
          exact ⟨⟨hB, hids⟩, hB, hi⟩) fun _ _ hg => hg
      refine hfirst.listed rfl fun paths list' => ?_
      have hrest := ((ih xs).frame (lasting_listed paths list')).weaken (fun g hg => And.comm.1 hg) fun _ _ hg => hg
      rw [Option.map_eq_bind]
      exact hrest.listed rfl fun paths' list'' => Explores.pure fun g hg => Option.Rel.some (List.rel_append hg.1 hg.2)

/-- The paths that continue a path are listed as the ancestry lists them. -/
theorem pathsWithin_spec (n : Nat) (before : List NodeId) (bs : List Identity) (last : NodeId) (x : Identity) :
    Explores f total (fun g => g.Names before bs ∧ g.Calls last x)
      (pathsWithin n before last : Run (Exploring σ) (Option (List (List NodeId))))
      fun r g => g.Listed r (f.pathsFrom n bs x) := by
  induction n generalizing before bs last x with
  | zero => exact Explores.pure fun g hg => Option.Rel.none
  | succ n ih =>
    refine ((parents_spec last x).frame (lasting_names before bs)).bind fun ps => Explores.of_sound ?_
    -- the nodes that the path can go on to, beside the identities that it can go on to
    have hnext : ∀ g : PathGraph, g.Sound f ∧ g.Names before bs ∧ g.Knows last x ∧ g.Names ps (f.parentIds x) →
        g.Names (last :: before) (x :: bs) ∧ g.Names (ps.filter (· ∉ last :: before)) ((f.parentIds x).filter (· ∉ x :: bs)) :=
      fun g hg => by
        obtain ⟨hsound, hbefore, hlast, hps⟩ := hg
        have hpath : g.Names (last :: before) (x :: bs) := List.Forall₂.cons hlast.1 hbefore
        exact ⟨hpath, hsound.names_filter hps hpath⟩
    have hempty : ∀ g : PathGraph, g.Sound f ∧ g.Names before bs ∧ g.Knows last x ∧ g.Names ps (f.parentIds x) →
        (ps.filter (· ∉ last :: before)).isEmpty = ((f.parentIds x).filter (· ∉ x :: bs)).isEmpty :=
      fun g hg => isEmpty_eq_of_names (hnext g hg).2
    dsimp only
    rw [Ancestry.pathsFrom]
    cases hnone : (ps.filter (· ∉ last :: before)).isEmpty with
    | true =>
      refine Explores.pure fun g hg => ?_
      rw [if_pos ((hempty g hg).symm.trans hnone)]
      exact Option.Rel.some (List.Forall₂.cons (List.Forall₂.cons hg.2.2.1 List.Forall₂.nil) List.Forall₂.nil)
    | false =>
      cases hnone' : ((f.parentIds x).filter (· ∉ x :: bs)).isEmpty with
      | true => exact Explores.vacuous fun g hg => Bool.false_ne_true (hnone.symm.trans ((hempty g hg).trans hnone'))
      | false =>
        have hgather := (gather_spec (lasting_names (last :: before) (x :: bs)) (fun i y => ih (last :: before) (x :: bs) i y)
          (ps.filter (· ∉ last :: before)) ((f.parentIds x).filter (· ∉ x :: bs))).frame (lasting_knows last x)
        rw [if_neg Bool.false_ne_true, if_neg Bool.false_ne_true, Option.map_eq_bind]
        refine (hgather.weaken (fun g hg => ⟨hg.2.2.1, hnext g hg⟩) fun _ _ hg => hg).listed rfl fun paths list => ?_
        refine Explores.pure fun g hg => Option.Rel.some (List.rel_map ?_ hg.2)
        exact fun _ _ hp => List.Forall₂.cons hg.1 hp

/-- All paths from a node are those that the ancestry lists, as tokens, and every node on them is expanded. -/
theorem allPaths_spec (limit : Nat) (i : NodeId) (x : Identity) :
    Explores f total (fun g => g.Calls i x) (allPaths limit i : Run (Exploring σ) (Option (List (List Token))))
      fun r g => g.Spells r (f.pathsFrom limit [] x) := by
  have hlist : Explores f total (fun g => g.Calls i x)
      (do
        let paths ← pathsWithin limit [] i
        let g := (← Act.get).graph
        pure (paths.map (·.map g.tokens), g.size) : Run (Exploring σ) (Option (List (List Token)) × Nat))
      fun r g => g.Spells r.1 (f.pathsFrom limit [] x) := by
    refine ((pathsWithin_spec limit [] [] i x).weaken (fun g hg => ⟨List.Forall₂.nil, hg⟩) fun _ _ hg => hg).bind fun paths => ?_
    intro A hA
    refine Act.Spec.get fun s hs => Act.Spec.pure fun s' hs' => ?_
    rw [hs']
    exact ⟨hs.1, hs.2.1, hs.2.2.spells⟩
  refine Explores.read (q := fun g => g.token i) (fun g hg => ?_) fun t => ?_
  · obtain ⟨n, hn, -⟩ := hg
    exact ⟨n.token, by rw [PathGraph.token, node_eq_ok_iff.2 hn]; rfl⟩
  · exact (hlist.logged.weaken (fun g hg => hg.2) fun _ _ hg => hg).bind fun listed => Explores.pure fun g hg => hg

end Exploring
end Lineage
