import Lineage.Graph.Paths
import Lineage.Proofs.Cache.Renaming

/-!
# Exploring side by side

A path graph may be explored in two contexts at once. All that exploring does with its context is to ask and to log, so if questions are
answered alike and events may be logged on both sides, every operation ends alike and leaves the same graph (`Beside`).
-/

namespace Lineage.Exploring

variable {σ τ : Type} {P : Context σ → Context τ → Prop}

/-- The same path graph is explored in contexts that are related. -/
structure Beside (P : Context σ → Context τ → Prop) (s : Exploring σ) (s' : Exploring τ) : Prop where
  graph : s'.graph = s.graph
  context : P s.context s'.context

theorem inContext_beside {α β : Type} {A : α → β → Prop} {r : Run (Context σ) α} {q : Run (Context τ) β}
    (h : Act.Mirrors P A r q) : Act.Mirrors (Beside P) A (inContext r) (inContext q) :=
  h.on (fun _ _ hs => hs.context) fun _ _ _ _ hs hc => ⟨hs.graph, hc⟩

theorem link_beside (found : List NodeId) (ts : List Token) :
    Act.Mirrors (Beside P) Eq (link found ts : Run (Exploring σ) (List NodeId)) (link found ts) := by
  intro s s' hs
  unfold link
  rw [hs.graph]
  exact ⟨.ok rfl, rfl, hs.context⟩

/-- Gathering is alike where each of its steps is. -/
theorem gather_mirrors {s t α β : Type} {R : s → t → Prop} {r : α → Run s (Option (List β))} {q : α → Run t (Option (List β))}
    (h : ∀ a, Act.Mirrors R Eq (r a) (q a)) (as : List α) : Act.Mirrors R Eq (gather r as) (gather q as) := by
  induction as with
  | nil => exact Act.Mirrors.pure rfl
  | cons a as ih =>
    refine (h a).bind fun x _ hx => ?_
    subst hx
    cases x with
    | none => exact Act.Mirrors.pure rfl
    | some bs =>
      refine ih.bind fun x _ hx => ?_
      subst hx
      cases x with
      | none => exact Act.Mirrors.pure rfl
      | some bs' => exact Act.Mirrors.pure rfl

section Asking

variable [Sources σ] [Sources τ]
  (hask : ∀ category t, Act.Mirrors P Eq (Context.ask category t : Run (Context σ) Answer) (Context.ask category t))

include hask

theorem askAll_beside (t : Token) (cs : List Category) (found : List NodeId) :
    Act.Mirrors (Beside P) Eq (askAll t cs found : Run (Exploring σ) (List NodeId)) (askAll t cs found) := by
  induction cs generalizing found with
  | nil => exact Act.Mirrors.pure rfl
  | cons c cs ih =>
    refine (inContext_beside (hask c t)).bind fun a _ ha => ?_
    subst ha
    refine (link_beside found _).bind fun found _ hfound => ?_
    subst hfound
    exact ih found

theorem parents_beside (i : NodeId) :
    Act.Mirrors (Beside P) Eq (parents i : Run (Exploring σ) (List NodeId)) (parents i) := by
  refine Act.Mirrors.get fun s s' hs => ?_
  rw [hs.graph]
  refine (Act.Mirrors.ofExcept (Act.Alike.refl _)).bind fun n _ hn => ?_
  subst hn
  cases n.parents with
  | some ps => exact Act.Mirrors.pure rfl
  | none =>
    refine (askAll_beside hask n.token _ []).bind fun ps _ hps => ?_
    subst hps
    refine Act.Mirrors.bind (Act.Mirrors.modify fun s s' hs => ⟨?_, hs.context⟩) fun _ _ _ => Act.Mirrors.pure rfl
    rw [hs.graph]

theorem pathsWithin_beside (n : Nat) (before : List NodeId) (last : NodeId) :
    Act.Mirrors (Beside P) Eq (pathsWithin n before last : Run (Exploring σ) _) (pathsWithin n before last) := by
  induction n generalizing before last with
  | zero => exact Act.Mirrors.pure rfl
  | succ n ih =>
    refine (parents_beside hask last).bind fun ps _ hps => ?_
    subst hps
    dsimp only
    split
    · exact Act.Mirrors.pure rfl
    · refine (gather_mirrors (fun i => ih _ i) _).bind fun x _ hx => ?_
      subst hx
      cases x with
      | none => exact Act.Mirrors.pure rfl
      | some paths => exact Act.Mirrors.pure rfl

theorem allPaths_beside (hemit : ∀ e, Act.Mirrors P Eq (Context.emit e : Run (Context σ) Unit) (Context.emit e)) (limit : Nat)
    (i : NodeId) : Act.Mirrors (Beside P) Eq (allPaths limit i : Run (Exploring σ) _) (allPaths limit i) := by
  refine Act.Mirrors.get fun s s' hs => ?_
  rw [hs.graph]
  refine (Act.Mirrors.ofExcept (Act.Alike.refl _)).bind fun t _ ht => ?_
  subst ht
  refine Act.Mirrors.bind (A := Eq) (Context.loggedBy_mirrors ?_ (fun e => inContext_beside (hemit e)) ?_) fun a b hab => ?_
  · refine (pathsWithin_beside hask limit [] i).bind fun paths _ hpaths => Act.Mirrors.get fun s s' hs => Act.Mirrors.pure ?_
    rw [hpaths, hs.graph]
  · intro a b hab
    rw [hab]
  · exact Act.Mirrors.pure (congrArg Prod.fst hab)

end Asking

end Lineage.Exploring
