import Lineage.Source.Catalog
import Lineage.Proofs.Faithful

/-!
# Sources of an ancestry

Two kinds of sources that agree with an ancestry. A catalog of a listing and hooks, without failures and without auxiliary providers,
says of every token what its two tables say of the identity, and asking it only adds to the questions that it keeps. Faulty sources
answer as an ancestry does, but fail at some of the questions.
-/

namespace Lineage

/-! ## Catalogs of tables -/

/-- What a listing and hooks say of every identity. -/
def Ancestry.ofTables (l : Listing) (h : Hooks) : Ancestry
  | .native, x => l.parents.find? x
  | .auxiliary, _ => none
  | .hooking, x => h.links.find? x

/-- Tables without cycles make an ancestry without cycles: with every entry some rank decreases. -/
theorem Ancestry.acyclic_ofTables {l : Listing} {h : Hooks} (rank : Identity → Nat)
    (hl : ∀ e ∈ l.parents.entries, ∀ t ∈ e.2, rank t.identity < rank e.1)
    (hh : ∀ e ∈ h.links.entries, ∀ t ∈ e.2, rank t.identity < rank e.1) : (ofTables l h).Acyclic .both := by
  refine acyclic_of_rank rank fun x y hxy => ?_
  obtain ⟨category, t, ht, rfl⟩ := parent_both_iff.1 hxy
  cases category with
  | native =>
    cases hx : l.parents.find? x with
    | none =>
      rw [ofTables, hx] at ht
      cases ht
    | some ts =>
      rw [ofTables, hx] at ht
      exact hl (x, ts) (Table.mem_of_find? hx) t ht
  | auxiliary => cases ht
  | hooking =>
    cases hx : h.links.find? x with
    | none =>
      rw [ofTables, hx] at ht
      cases ht
    | some ts =>
      rw [ofTables, hx] at ht
      exact hh (x, ts) (Table.mem_of_find? hx) t ht

namespace Catalog

/-- The catalog of a listing and hooks. -/
def ofTables (l : Listing) (h : Hooks) : Catalog := { Catalog.empty with native := Source.ofListing l, hooks := h }

variable {l : Listing} {h : Hooks} {c : Catalog}

/-- A catalog of tables that was asked differs from what it was in its questions only. -/
theorem eq_of_leads (hl : Sources.Leads (ofTables l h) c) : c = { ofTables l h with queries := c.queries } := by
  induction hl with
  | refl => rfl
  | ask category t _ ih =>
    rw [ih]
    cases category <;> rfl

/-- A catalog of tables replies what its tables say. -/
theorem ask_of_leads (hl : Sources.Leads (ofTables l h) c) (category : Category) (t : Token) :
    (Sources.ask category t c).1 = .ok (Ancestry.ofTables l h category t.identity) := by
  rw [eq_of_leads hl]
  cases category <;> rfl

/-- A context on a catalog of tables is stable. -/
theorem stable_ofTables (l : Listing) (h : Hooks) (settings : CacheSettings) :
    (Context.new (ofTables l h) settings).Stable (Ancestry.ofTables l h) := by
  refine Context.faithful_new settings (fun c hl category t a ha => ?_) fun _ c hl category t => ?_
  · rw [ask_of_leads hl] at ha
    exact (Except.ok.inj ha).symm
  · exact ⟨_, ask_of_leads hl category t⟩

end Catalog

/-! ## Faulty sources -/

/-- Sources that answer as an ancestry does, and fail at some questions, which are counted from zero. -/
structure Faulty where
  ancestry : Ancestry
  faults : List Nat
  asked : Nat

namespace Faulty

instance : Sources Faulty where
  ask category t s :=
    (if s.asked ∈ s.faults then .error "unavailable" else .ok (s.ancestry category t.identity), { s with asked := s.asked + 1 })

/-- Asking changes nothing but the count. -/
theorem ancestry_of_leads {s s' : Faulty} (h : Sources.Leads s s') : s'.ancestry = s.ancestry := by
  induction h with
  | refl => rfl
  | ask category t _ ih => exact ih

/-- Faulty sources agree with their ancestry. -/
theorem agree (s : Faulty) : Sources.Agree s.ancestry s := by
  intro s' hl category t a ha
  simp only [Sources.ask] at ha
  split at ha
  · cases ha
  · rw [← ancestry_of_leads hl]
    exact (Except.ok.inj ha).symm

end Faulty
end Lineage
