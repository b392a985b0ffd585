import Lineage.Refresher
import Lineage.Proofs.Graph.Abreast
import Lineage.Proofs.Paths.Beside

/-!
# Graphs of users under other names

A graph knows whose answers it uses, and a refresher keeps a graph. Neither looks at the name of the user for anything but to ask: so
what is built, grown, compared and sent is the same under other names.
-/

namespace Lineage

namespace LevelGraph

variable {ρ : Renaming}

/-- A graph of the user under the other name. -/
def rename (ρ : Renaming) (g : LevelGraph) : LevelGraph := { g with scope := ρ.scope g.scope }

/-- Two graphs that differ in the name of their user at most. -/
structure Renamed (ρ : Renaming) (g g' : LevelGraph) : Prop where
  eq : g' = g.rename ρ
  known : ρ.Knows g.scope

theorem chain_rename (ρ : Renaming) (g : LevelGraph) (i : NodeId) : (g.rename ρ).chain i = g.chain i := by
  have hchain : ∀ n i, (g.rename ρ).chainWithin n i = g.chainWithin n i := by
    intro n
    induction n with
    | zero => exact fun _ => rfl
    | succ n ih =>
      intro i
      rw [chainWithin, chainWithin, show (g.rename ρ).child? i = g.child? i from rfl]
      cases g.child? i with
      | none => rfl
      | some c => exact congrArg (i :: ·) (ih c)
  exact hchain g.size i

end LevelGraph

/-! ## Growing -/

namespace Growing

variable {σ : Type} {ρ : Renaming}

/-- The same graph grows on both sides, but for the names of the users. -/
structure Renamed (ρ : Renaming) (s s' : Growing σ) : Prop where
  graph : s.graph.Renamed ρ s'.graph
  context : s.context.Renamed ρ s'.context

/-- What ends alike abreast does so under other names. -/
theorem mirrors_of_abreast {α β : Type} {A : α → β → Prop} {r : Run (Growing σ) α} {q : Run (Growing σ) β}
    (h : ∀ scope, ρ.Knows scope → Act.Mirrors (Abreast (Context.Renamed ρ) scope (ρ.scope scope)) A r q) :
    Act.Mirrors (Renamed ρ) A r q := by
  intro s s' hs
  obtain ⟨hx, hgraph, hscope, hcontext⟩ := h s.graph.scope hs.graph.known s s' ⟨hs.graph.eq, rfl, hs.context⟩
  refine ⟨hx, ⟨?_, hscope ▸ hs.graph.known⟩, hcontext⟩
  rw [hgraph, ← hscope]
  rfl

variable [Sources σ]

theorem expandAll_mirrors : Act.Mirrors (Renamed ρ) Eq (expandAll : Run (Growing σ) Unit) expandAll :=
  mirrors_of_abreast fun _ hs => expandAll_abreast (Context.parents_mirrors hs)

theorem level?_mirrors (n : Nat) :
    Act.Mirrors (Renamed ρ) Eq (level? n : Run (Growing σ) (Option (List NodeId))) (level? n) :=
  mirrors_of_abreast fun _ hs => level?_abreast (Context.parents_mirrors hs) n

end Growing

/-- A graph that is built for the user under the other name is the same but for that name. -/
theorem LevelGraph.build_mirrors {σ : Type} [Sources σ] {ρ : Renaming} {scope : Scope} (hs : ρ.Knows scope) (search : Search)
    (root : Token) (onlyOne : Bool) :
    Act.Mirrors (Context.Renamed ρ) (Renamed ρ) (build scope search root onlyOne : Run (Context σ) LevelGraph)
      (build (ρ.scope scope) search root onlyOne) := by
  refine (build_abreast (Context.parents_mirrors hs) Context.emit_mirrors search root onlyOne).weaken fun g g' hg => ?_
  obtain ⟨rfl, rfl⟩ := hg
  exact ⟨rfl, hs⟩

/-! ## Comparing -/

/-- A place in the graph of the user under the other name. -/
def Place.rename (ρ : Renaming) (p : Place) : Place := { p with graph := p.graph.rename ρ }

namespace Place

variable {ρ : Renaming}

theorem above_rename (ρ : Renaming) (p : Place) : (p.rename ρ).above = p.above := by
  have habove : ∀ n i, aboveWithin (p.graph.rename ρ) n i = aboveWithin p.graph n i := by
    intro n
    induction n with
    | zero => exact fun _ => rfl
    | succ n ih =>
      intro i
      rw [aboveWithin, aboveWithin]
      simp only [ih]
      rfl
  exact habove p.graph.size p.id

theorem covers_rename (ρ : Renaming) (p q : Place) : (p.rename ρ).covers (q.rename ρ) = p.covers q := by
  rw [covers, above_rename]
  rfl

end Place

namespace Difference

variable {ρ : Renaming}

theorem partedFrom_rename (ρ : Renaming) (left right : LevelGraph) (is js : List NodeId) :
    partedFrom (left.rename ρ) (right.rename ρ) is js = partedFrom left right is js := by
  induction is generalizing js with
  | nil => rfl
  | cons i is ih =>
    cases js with
    | nil => rfl
    | cons j js =>
      rw [partedFrom, partedFrom, ih]
      rfl

theorem partedAt_rename (ρ : Renaming) (left right : LevelGraph) (top : NodeId) :
    partedAt (left.rename ρ) (right.rename ρ) top = (partedAt left right top).map (Place.rename ρ) := by
  unfold partedAt
  rw [show ((right.rename ρ).tops.find? fun i => Place.same ⟨left.rename ρ, top⟩ ⟨right.rename ρ, i⟩) =
    right.tops.find? fun i => Place.same ⟨left, top⟩ ⟨right, i⟩ from rfl]
  cases right.tops.find? fun i => Place.same ⟨left, top⟩ ⟨right, i⟩ with
  | none => rfl
  | some other =>
    dsimp only
    rw [LevelGraph.chain_rename, LevelGraph.chain_rename, partedFrom_rename, Option.map_map]
    rfl

theorem addPlaces_rename (ρ : Renaming) (left right : LevelGraph) (found : List Place) :
    addPlaces (left.rename ρ) (right.rename ρ) (found.map (Place.rename ρ)) = (addPlaces left right found).map (Place.rename ρ) := by
  have hadd : ∀ (found : List Place) p, addPlace (found.map (Place.rename ρ)) (p.rename ρ) = (addPlace found p).map (Place.rename ρ) := by
    intro found p
    unfold addPlace
    rw [List.any_map, show ((fun q => q.same (p.rename ρ)) ∘ Place.rename ρ) = fun q => q.same p from rfl]
    split
    · rfl
    · rw [List.map_append, List.map_singleton]
  have hfold : ∀ ps found : List Place,
      (ps.map (Place.rename ρ)).foldl addPlace (found.map (Place.rename ρ)) = (ps.foldl addPlace found).map (Place.rename ρ) := by
    intro ps
    induction ps with
    | nil => exact fun _ => rfl
    | cons p ps ih =>
      intro found
      rw [List.map_cons, List.foldl_cons, hadd, ih, List.foldl_cons]
  have htops : (left.rename ρ).tops.filterMap (partedAt (left.rename ρ) (right.rename ρ)) =
      (left.tops.filterMap (partedAt left right)).map (Place.rename ρ) := by
    rw [List.map_filterMap, show (left.rename ρ).tops = left.tops from rfl]
    exact congrArg (List.filterMap · left.tops) (funext (partedAt_rename ρ left right))
  rw [addPlaces, htops, hfold, addPlaces]

theorem candidates_rename (ρ : Renaming) (before after : LevelGraph) :
    candidates (before.rename ρ) (after.rename ρ) = (candidates before after).map (Place.rename ρ) := by
  have hplaces : places (before.rename ρ) (after.rename ρ) = (places before after).map (Place.rename ρ) := by
    rw [places, show ([] : List Place) = [].map (Place.rename ρ) from rfl, addPlaces_rename, addPlaces_rename]
    rfl
  rw [candidates, hplaces, uncovered, List.filter_map, candidates, uncovered]
  refine congrArg (List.map (Place.rename ρ)) (List.filter_congr fun p _ => ?_)
  simp only [Function.comp_apply, List.any_map, Function.comp_def, Place.covers_rename]
  rfl

/-- The difference does not depend on whose graphs are compared. -/
theorem tokens_rename (ρ : Renaming) (before after : LevelGraph) :
    tokens (before.rename ρ) (after.rename ρ) = tokens before after := by
  rw [tokens, candidates_rename, List.flatMap_map, tokens]
  rfl

theorem find_mirrors {σ : Type} {before before' after after' : LevelGraph} (hb : before.Renamed ρ before')
    (ha : after.Renamed ρ after') :
    Act.Mirrors (Context.Renamed ρ) Eq (find before after : Run (Context σ) (List Token)) (find before' after') := by
  rw [hb.eq, ha.eq]
  refine Context.loggedBy_mirrors (Act.Mirrors.pure ?_) Context.emit_mirrors fun _ _ _ => ?_
  · rw [tokens_rename]
  · rw [candidates_rename, List.length_map]
    rfl

end Difference

/-! ## Refreshing -/

namespace Refresher

/-- A refresher with the graph of the user under the other name. -/
def rename (ρ : Renaming) (r : Refresher) : Refresher := { r with before := r.before.rename ρ }

/-- Two refreshers that differ in the name of the user at most. -/
structure Renamed (ρ : Renaming) (r r' : Refresher) : Prop where
  eq : r' = r.rename ρ
  known : ρ.Knows r.before.scope

end Refresher

namespace Refreshing

variable {σ : Type} {ρ : Renaming} {scope : Scope}

/-- The same refresher is at work on both sides, but for the names of the users. -/
structure Renamed (ρ : Renaming) (s s' : Refreshing σ) : Prop where
  refresher : s.refresher.Renamed ρ s'.refresher
  context : s.context.Renamed ρ s'.context

theorem inContext_mirrors {α β : Type} {A : α → β → Prop} {r : Run (Context σ) α} {q : Run (Context σ) β}
    (h : Act.Mirrors (Context.Renamed ρ) A r q) : Act.Mirrors (Renamed ρ) A (inContext r) (inContext q) :=
  h.on (fun _ _ hs => hs.context) fun _ _ _ _ hs hc => ⟨hs.refresher, hc⟩

theorem emit_mirrors (e : Log.Event) : Act.Mirrors (Renamed ρ) Eq (emit e : Run (Refreshing σ) Unit) (emit e) :=
  inContext_mirrors (Context.emit_mirrors e)

/-- What is changed besides the graph is changed on both sides. -/
theorem change_mirrors {f : Refresher → Refresher} (hf : ∀ r, f (r.rename ρ) = (f r).rename ρ)
    (hbefore : ∀ r, (f r).before = r.before) :
    Act.Mirrors (Renamed ρ) Eq (change f : Run (Refreshing σ) Unit) (change f) := by
  refine Act.Mirrors.modify fun s s' hs => ⟨⟨?_, ?_⟩, hs.context⟩
  · show f s'.refresher = _
    rw [hs.refresher.eq, hf]
  · show ρ.Knows (f s.refresher).before.scope
    rw [hbefore]
    exact hs.refresher.known

theorem sendAll_mirrors (id : String) (ts : List Token) :
    Act.Mirrors (Renamed ρ) Eq (sendAll id ts : Run (Refreshing σ) Unit) (sendAll id ts) := by
  induction ts with
  | nil => exact Act.Mirrors.pure rfl
  | cons t ts ih =>
    exact (emit_mirrors _).bind fun _ _ _ => Act.Mirrors.bind (change_mirrors (fun _ => rfl) fun _ => rfl) fun _ _ _ => ih

theorem send_mirrors (ts : List Token) : Act.Mirrors (Renamed ρ) Eq (send ts : Run (Refreshing σ) Nat) (send ts) := by
  refine Act.Mirrors.get fun s s' hs => ?_
  dsimp only
  rw [hs.refresher.eq, show (s.refresher.rename ρ).console = s.refresher.console from rfl,
    show (s.refresher.rename ρ).requestId = s.refresher.requestId from rfl]
  cases s.refresher.console with
  | some sent => exact (sendAll_mirrors _ ts).bind fun _ _ _ => Act.Mirrors.pure rfl
  | none => exact (emit_mirrors _).bind fun _ _ _ => Act.Mirrors.pure rfl

variable [Sources σ]

theorem dispatch_mirrors (hs : ρ.Knows scope) (child : Token) :
    Act.Mirrors (Renamed ρ) Eq (dispatch scope child : Run (Refreshing σ) Nat) (dispatch (ρ.scope scope) child) := by
  refine Act.Mirrors.get fun s s' h => ?_
  dsimp only
  rw [h.refresher.eq, show (s.refresher.rename ρ).posted = s.refresher.posted from rfl]
  split
  · exact Act.Mirrors.fail _
  · refine Act.Mirrors.bind (change_mirrors (fun _ => rfl) fun _ => rfl) fun _ _ _ => ?_
    refine (inContext_mirrors (LevelGraph.build_mirrors hs .both child false)).bind fun after after' hafter => ?_
    refine Act.Mirrors.get fun s s' h => ?_
    refine (inContext_mirrors (Difference.find_mirrors ⟨?_, h.refresher.known⟩ hafter)).bind fun ts _ hts => ?_
    · rw [h.refresher.eq]
      rfl
    · subst hts
      exact send_mirrors ts

/-- A post sends the same on both sides. -/
theorem post_mirrors (hs : ρ.Knows scope) (child : Token) :
    Act.Mirrors (Renamed ρ) Eq (post scope child : Run (Refreshing σ) Nat) (post (ρ.scope scope) child) := by
  refine Act.Mirrors.get fun s s' h => ?_
  dsimp only
  rw [h.refresher.eq]
  refine Context.loggedBy_mirrors (dispatch_mirrors hs child) emit_mirrors fun n _ hn => ?_
  rw [hn]
  rfl

end Refreshing

theorem Refresher.new_mirrors {σ : Type} [Sources σ] {ρ : Renaming} {scope : Scope} (hs : ρ.Knows scope) (requestId : String)
    (console : Bool) (parent : Token) :
    Act.Mirrors (Context.Renamed ρ) (Refresher.Renamed ρ) (Refresher.new scope requestId console parent : Run (Context σ) Refresher)
      (Refresher.new (ρ.scope scope) requestId console parent) := by
  refine (Context.emit_mirrors _).bind fun _ _ _ => (LevelGraph.build_mirrors hs .both parent false).bind fun g g' hg => ?_
  refine Act.Mirrors.pure ⟨?_, hg.known⟩
  rw [hg.eq]
  rfl

/-! ## Exploring -/

namespace Exploring

variable {σ : Type} {ρ : Renaming}

/-- The same path graph is explored on both sides. -/
structure Renamed (ρ : Renaming) (s s' : Exploring σ) : Prop where
  graph : s'.graph = s.graph
  context : s.context.Renamed ρ s'.context

/-- What ends alike side by side does so under other names. -/
theorem mirrors_of_beside {α β : Type} {A : α → β → Prop} {r : Run (Exploring σ) α} {q : Run (Exploring σ) β}
    (h : Act.Mirrors (Beside (Context.Renamed ρ)) A r q) : Act.Mirrors (Renamed ρ) A r q := by
  intro s s' hs
  obtain ⟨hx, hgraph, hcontext⟩ := h s s' ⟨hs.graph, hs.context⟩
  exact ⟨hx, hgraph, hcontext⟩

variable [Sources σ]

theorem parents_mirrors (i : NodeId) :
    Act.Mirrors (Renamed ρ) Eq (parents i : Run (Exploring σ) (List NodeId)) (parents i) :=
  mirrors_of_beside (parents_beside Context.ask_mirrors i)

theorem allPaths_mirrors (limit : Nat) (i : NodeId) :
    Act.Mirrors (Renamed ρ) Eq (allPaths limit i : Run (Exploring σ) _) (allPaths limit i) :=
  mirrors_of_beside (allPaths_beside Context.ask_mirrors Context.emit_mirrors limit i)

end Exploring

end Lineage
