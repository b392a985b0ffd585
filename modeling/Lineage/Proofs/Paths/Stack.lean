import Lineage.Graph.Paths
import Lineage.Proofs.Act

/-!
# All paths, collected with a stack

The paths from a node are listed by going up from each of its new parents in turn. A stack does the same without going up and down: on it
are the paths that are not finished, each of them is taken off to be finished or to be continued by one node, and the continuations are
put back so that the one through the first parent is taken next. What is below a path on the stack is not touched before all paths that
continue it are finished, so both ways ask the same questions in the same order and end with the same paths, or both end where a source
fails.
-/

namespace Lineage.Exploring

variable {σ : Type} [Sources σ] {s s' s₁ : Exploring σ} {i last : NodeId} {before : List NodeId} {paths top rest : List (List NodeId)}
  {e : Error} {n limit : Nat}

/-- The full paths that continue the unfinished ones on a stack, added to those that are finished. The path on top is finished if no parent
of its last node is new, and replaced by its continuations if one is, the one through the first parent on top. There is nothing if more
paths would be taken from the stack than allowed. -/
def collect : Nat → List (List NodeId) → List (List NodeId) → Run (Exploring σ) (Option (List (List NodeId)))
  | _, finished, [] => pure (some finished)
  | 0, _, _ :: _ => pure none
  | n + 1, finished, path :: stack =>
    match path.getLast? with
    | none => collect n finished stack
    | some last => do
      let ps ← parents last
      let next := ps.filter (· ∉ path)
      if next.isEmpty then collect n (finished ++ [path]) stack else collect n finished (next.map (path ++ [·]) ++ stack)

/-- The step for a path that has a last node, the nodes before it given nearest first. -/
theorem collect_step (n : Nat) (finished stack : List (List NodeId)) (before : List NodeId) (last : NodeId) :
    collect (n + 1) finished ((last :: before).reverse :: stack) = (do
      let ps ← parents last
      let next := ps.filter (· ∉ last :: before)
      if next.isEmpty then collect n (finished ++ [(last :: before).reverse]) stack
      else collect n finished (next.map (fun i => (i :: last :: before).reverse) ++ stack) : Run (Exploring σ) _) := by
  have hlast : (last :: before).reverse.getLast? = some last := by rw [List.getLast?_reverse, List.head?_cons]
  have hcons : ∀ i, (i :: last :: before).reverse = (last :: before).reverse ++ [i] := fun i => List.reverse_cons
  rw [collect, hlast]
  simp only [List.mem_reverse, hcons]

/-- What becomes of a stack with some unfinished paths on top, where a listing of all paths through them ends as given. If it lists paths,
these are finished and what is below is worked off next. If it fails, so does the work on the stack, in the same state. If it was ended by
its limit, nothing is said. -/
def WorksOff (top : List (List NodeId)) (before : List NodeId) (s : Exploring σ) :
    Except Error (Option (List (List NodeId))) × Exploring σ → Prop
  | (.ok (some paths), s') => ∃ k, ∀ m finished stack,
      collect (m + k) finished (top ++ stack) s = collect m (finished ++ paths.map (before.reverse ++ ·)) stack s'
  | (.ok none, _) => True
  | (.error e, s') => ∃ k, ∀ m finished stack, collect (m + k) finished (top ++ stack) s = (.error e, s')

/-- A failure on top of a stack is a failure of the whole stack. -/
theorem WorksOff.append_of_error (h : WorksOff top before s (.error e, s')) (rest : List (List NodeId)) :
    WorksOff (top ++ rest) before s (.error e, s') := by
  obtain ⟨k, hk⟩ := h
  refine ⟨k, fun m finished stack => ?_⟩
  rw [List.append_assoc]
  exact hk m finished (rest ++ stack)

/-- What is on top is worked off before what is below it. -/
theorem WorksOff.append {r : Except Error (Option (List (List NodeId)))} (h : WorksOff top before s (.ok (some paths), s₁))
    (hrest : WorksOff rest before s₁ (r, s')) : WorksOff (top ++ rest) before s (r.map (·.map (paths ++ ·)), s') := by
  obtain ⟨k, hk⟩ := h
  rcases r with e | _ | others
  · obtain ⟨k', hk'⟩ := hrest
    refine ⟨k' + k, fun m finished stack => ?_⟩
    rw [← Nat.add_assoc, List.append_assoc]
    exact (hk _ finished _).trans (hk' m _ stack)
  · trivial
  · obtain ⟨k', hk'⟩ := hrest
    refine ⟨k' + k, fun m finished stack => ?_⟩
    rw [← Nat.add_assoc, List.append_assoc, List.map_append, ← List.append_assoc finished]
    exact (hk _ finished _).trans (hk' m _ stack)

/-- A path that can be continued is worked off with its continuations. -/
theorem WorksOff.of_continuations {r : Except Error (Option (List (List NodeId)))} {ps : List NodeId}
    (hps : parents last s = (.ok ps, s₁))
    (hsome : ¬(ps.filter (· ∉ last :: before)).isEmpty = true)
    (h : WorksOff ((ps.filter (· ∉ last :: before)).map fun i => (i :: last :: before).reverse) (last :: before) s₁ (r, s')) :
    WorksOff [(last :: before).reverse] before s (r.map (·.map (·.map (last :: ·))), s') := by
  have hstep : ∀ k m finished stack, collect (m + (k + 1)) finished ([(last :: before).reverse] ++ stack) s =
      collect (m + k) finished ((ps.filter (· ∉ last :: before)).map (fun i => (i :: last :: before).reverse) ++ stack) s₁ := by
    intro k m finished stack
    rw [List.singleton_append, ← Nat.add_assoc, collect_step, Act.bind_of_ok hps, if_neg hsome]
  rcases r with e | _ | paths
  · obtain ⟨k, hk⟩ := h
    exact ⟨k + 1, fun m finished stack => (hstep k m finished stack).trans (hk m finished stack)⟩
  · trivial
  · obtain ⟨k, hk⟩ := h
    refine ⟨k + 1, fun m finished stack => (hstep k m finished stack).trans ((hk m finished stack).trans ?_)⟩
    simp [Function.comp_def]

/-- Where the paths through some continuations are gathered, these continuations are worked off. -/
theorem worksOff_gather
    (ih : ∀ i (s : Exploring σ), WorksOff [(i :: before).reverse] before s (pathsWithin n before i s)) (next : List NodeId)
    (s : Exploring σ) : WorksOff (next.map fun i => (i :: before).reverse) before s (gather (pathsWithin n before) next s) := by
  induction next generalizing s with
  | nil => exact ⟨0, fun m finished stack => by simp⟩
  | cons i next ihnext =>
    have hfirst := ih i s
    rw [gather]
    rcases hr : pathsWithin n before i s with ⟨e | _ | paths, s₁⟩ <;> rw [hr] at hfirst
    · rw [Act.bind_of_error hr]
      exact hfirst.append_of_error _
    · rw [Act.bind_of_ok hr]
      trivial
    · have hboth := hfirst.append (ihnext s₁)
      rw [Act.bind_of_ok hr]
      dsimp only
      rcases hr' : gather (pathsWithin n before) next s₁ with ⟨e | _ | others, s₂⟩ <;> rw [hr'] at hboth
      · rw [Act.bind_of_error hr']
        exact hboth
      · rw [Act.bind_of_ok hr']
        trivial
      · rw [Act.bind_of_ok hr']
        exact hboth

/-- Where the paths that continue one path are listed, this path is worked off. -/
theorem worksOff_pathsWithin (n : Nat) (before : List NodeId) (last : NodeId) (s : Exploring σ) :
    WorksOff [(last :: before).reverse] before s (pathsWithin n before last s) := by
  -- the stack below is arbitrary at every length, so each continuation is worked off above those that follow it
  induction n generalizing before last s with
  | zero => trivial
  | succ n ih =>
    rw [pathsWithin]
    rcases hps : parents last s with ⟨e | ps, s₁⟩
    · rw [Act.bind_of_error hps]
      refine ⟨1, fun m finished stack => ?_⟩
      rw [List.singleton_append, collect_step, Act.bind_of_error hps]
    · rw [Act.bind_of_ok hps]
      split
      · next hnone =>
        refine ⟨1, fun m finished stack => ?_⟩
        rw [List.singleton_append, collect_step, Act.bind_of_ok hps, if_pos hnone]
        simp
      · next hsome =>
        have hall := WorksOff.of_continuations hps hsome (worksOff_gather (ih (last :: before)) (ps.filter (· ∉ last :: before)) s₁)
        rcases hr : gather (pathsWithin n (last :: before)) (ps.filter (· ∉ last :: before)) s₁ with ⟨e | _ | paths, s₂⟩ <;>
          rw [hr] at hall
        · rw [Act.bind_of_error hr]
          exact hall
        · rw [Act.bind_of_ok hr]
          trivial
        · rw [Act.bind_of_ok hr]
          exact hall

/-- Listing the paths from a node is collecting them with a stack on which the node is alone, whether this ends with the paths or with
the failure of a source, unless the limit ends the listing: both give the same paths in the same order, or the same error, and leave the
same state. -/
theorem collect_eq_pathsWithin (h : (pathsWithin limit [] i s).1 ≠ .ok none) :
    ∃ k, ∀ m, k ≤ m → collect m [] [[i]] s = pathsWithin limit [] i s := by
  have hworks := worksOff_pathsWithin limit [] i s
  rcases hr : pathsWithin limit [] i s with ⟨e | _ | paths, s'⟩ <;> rw [hr] at hworks h
  · obtain ⟨k, hk⟩ := hworks
    refine ⟨k, fun m hm => ?_⟩
    obtain ⟨d, rfl⟩ := Nat.exists_eq_add_of_le' hm
    exact hk d [] []
  · exact absurd rfl h
  · obtain ⟨k, hk⟩ := hworks
    refine ⟨k, fun m hm => ?_⟩
    obtain ⟨d, rfl⟩ := Nat.exists_eq_add_of_le' hm
    refine (hk d [] []).trans ?_
    cases d <;> simp [collect]

end Lineage.Exploring
