import Lineage.Fixture.Basic
import Lineage.Proofs.Faithful
import Lineage.Proofs.Sources.Auxiliary
import Lineage.Proofs.Sources.Hooks
import Lineage.Proofs.Token.Canonical

/-!
# What the sources of a fixture answer

The edges of a fixture are sorted into three sources. What each of them says about a token can be read off the edges, in the order in
which they came: the native source gives every parent, the auxiliary provider only those of children of its kind, and the hooks every
parent once. In which order the auxiliary providers are registered makes no difference, as each is the only one for its kind.
-/

namespace Lineage

/-! ## One more parent -/

theorem Answer.naming_append_singleton (ts : List Token) (t : Token) : naming (ts ++ [t]) = some (ts ++ [t]) :=
  naming_of_ne_nil (List.append_ne_nil_of_right_ne_nil _ (List.cons_ne_nil t []))

namespace Listing

variable {l : Listing} {t child parent : Token} {ts : List Token}

theorem answer_eq_of_same (l : Listing) (h : child.same t = true) : l.answer child = l.answer t := by
  rw [answer, answer, Token.same_iff.1 h]

/-- A parent that is added comes last for its child. -/
theorem answer_add_of_naming (h : l.answer t = .naming ts) (child parent : Token) :
    (l.add child parent).answer t = .naming (ts ++ if child.same t then [parent] else []) := by
  rw [answer_add, Token.same_comm t child]
  split
  · next hs => rw [answer_eq_of_same l hs, h, Answer.getD_naming, Answer.naming_append_singleton]
  · rw [List.append_nil, h]

end Listing

namespace Hooks

variable {h : Hooks} {t child parent : Token} {ts : List Token}

/-- A parent that a token is hooked below comes last, unless it is there. -/
theorem answer_add_of_naming (ht : h.answer t = .naming (Token.distinct ts)) (child parent : Token) :
    (h.add child parent).answer t = .naming (Token.distinct (ts ++ if child.same t then [parent] else [])) := by
  rw [answer_add, Token.same_comm t child]
  split
  · rw [ht, Answer.getD_naming, Token.distinct_eq_addNew, Token.distinct_eq_addNew, Token.addNew_append]
    exact (Answer.naming_of_ne_nil (addNew_singleton_ne_nil _ _)).symm
  · rw [List.append_nil, ht]

end Hooks

/-! ## One step after the others -/

section

variable {α β ε : Type} {f : β → α → Except ε β} {xs : List α} {b b' : β}

theorem foldlM_append_singleton_of_ok (h : xs.foldlM f b = .ok b') (x : α) : (xs ++ [x]).foldlM f b = f b' x := by
  rw [List.foldlM_append, h]
  exact bind_pure (f b' x)

theorem foldlM_append_singleton_of_error {e : ε} (h : xs.foldlM f b = .error e) (x : α) : (xs ++ [x]).foldlM f b = .error e := by
  rw [List.foldlM_append, h]
  rfl

end

namespace Fixture

/-! ## Edges, sorted into sources -/

/-- The parents that the links of a category give to some children, in order. -/
def Link.parents (xs : List Link) (category : Category) (p : Token → Bool) : List Token :=
  (xs.filter fun x => x.category = category && p x.child).map Link.parent

theorem Link.parents_append (xs : List Link) (x : Link) (category : Category) (p : Token → Bool) :
    parents (xs ++ [x]) category p = parents xs category p ++ if x.category = category && p x.child then [x.parent] else [] := by
  rw [parents, List.filter_append, List.map_append, List.filter_singleton, ← parents]
  cases x.category = category && p x.child <;> rfl

theorem Link.parents_append_of_ne (xs : List Link) {x : Link} {category : Category} (h : x.category ≠ category) (p : Token → Bool) :
    parents (xs ++ [x]) category p = parents xs category p := by
  rw [parents_append, decide_eq_false h, Bool.false_and, if_neg Bool.false_ne_true, List.append_nil]

theorem Link.parents_append_of_eq (xs : List Link) {x : Link} {category : Category} (h : x.category = category) (p : Token → Bool) :
    parents (xs ++ [x]) category p = parents xs category p ++ if p x.child then [x.parent] else [] := by
  rw [parents_append, decide_eq_true h, Bool.true_and]

/-- What is sorted is what some links say. -/
structure Links.Hold (l : Links) (xs : List Link) : Prop where
  native (t : Token) : l.native.answer t = .naming (Link.parents xs .native (·.same t))
  auxiliary (k : Kind) (t : Token) :
    (l.listing k).answer t = .naming (Link.parents xs .auxiliary fun child => child.same t && child.kind = k)
  hooks (t : Token) : l.hooks.answer t = .naming (Token.distinct (Link.parents xs .hooking (·.same t)))
  kinds (k : Kind) : k ∈ l.auxiliary.keys → ∃ x ∈ xs, x.child.kind = k

theorem Links.hold_empty : Hold empty [] where
  native _ := rfl
  auxiliary _ _ := rfl
  hooks _ := rfl
  kinds _ hk := nomatch hk

variable {l : Links} {xs : List Link} {c c' : Catalog} {ps qs : List (Kind × Listing)} {p : Kind × Listing} {k : Kind} {t : Token}

/-- One more link is sorted into the source of its category, and the others stay as they are. -/
theorem Links.Hold.add (h : Hold l xs) (x : Link) : Hold (l.add x) (xs ++ [x]) := by
  have hkinds : ∀ k, (∃ y ∈ xs, y.child.kind = k) → ∃ y ∈ xs ++ [x], y.child.kind = k := by
    rintro k ⟨y, hy, hk⟩
    exact ⟨y, List.mem_append_left _ hy, hk⟩
  cases hx : x.category with
  | native =>
    have hl : l.add x = { l with native := l.native.add x.child x.parent } := by rw [Links.add, hx]
    rw [hl]
    refine ⟨fun t => ?_, fun k t => ?_, fun t => ?_, fun k hk => hkinds k (h.kinds k hk)⟩
    · rw [Link.parents_append_of_eq xs hx]
      exact Listing.answer_add_of_naming (h.native t) x.child x.parent
    · rw [Link.parents_append_of_ne xs (by simp [hx])]
      exact h.auxiliary k t
    · rw [Link.parents_append_of_ne xs (by simp [hx])]
      exact h.hooks t
  | auxiliary =>
    have hl : l.add x = { l with auxiliary := l.auxiliary.set x.child.kind ((l.listing x.child.kind).add x.child x.parent) } := by
      rw [Links.add, hx]
    rw [hl]
    refine ⟨fun t => ?_, fun k t => ?_, fun t => ?_, fun k hk => ?_⟩
    · rw [Link.parents_append_of_ne xs (by simp [hx])]
      exact h.native t
    · rw [Link.parents_append_of_eq xs hx, listing, Table.find?_set]
      by_cases hk : k = x.child.kind
      · rw [if_pos hk, Option.getD_some, decide_eq_true hk.symm, Bool.and_true]
        exact Listing.answer_add_of_naming (hk ▸ h.auxiliary k t) x.child x.parent
      · rw [if_neg hk, decide_eq_false (Ne.symm hk), Bool.and_false, if_neg Bool.false_ne_true, List.append_nil]
        exact h.auxiliary k t
    · rw [Link.parents_append_of_ne xs (by simp [hx])]
      exact h.hooks t
    · rw [← Table.contains_iff, Table.contains, Table.find?_set] at hk
      split at hk
      · next he => exact ⟨x, by simp, he.symm⟩
      · exact hkinds k (h.kinds k (Table.contains_iff.1 hk))
  | hooking =>
    have hl : l.add x = { l with hooks := l.hooks.add x.child x.parent } := by rw [Links.add, hx]
    rw [hl]
    refine ⟨fun t => ?_, fun k t => ?_, fun t => ?_, fun k hk => hkinds k (h.kinds k hk)⟩
    · rw [Link.parents_append_of_ne xs (by simp [hx])]
      exact h.native t
    · rw [Link.parents_append_of_ne xs (by simp [hx])]
      exact h.auxiliary k t
    · rw [Link.parents_append_of_eq xs hx]
      exact Hooks.answer_add_of_naming (h.hooks t) x.child x.parent

/-! ## The catalog -/

/-- The catalog has the native listing, the hooks, and for each kind one provider that lists what it should. -/
structure Stocked (l : Links) (ps : List (Kind × Listing)) (c : Catalog) : Prop where
  native : c.native = Source.ofListing l.native
  hooks : c.hooks = l.hooks
  overlay : c.overlay = none
  providers (k : Kind) : c.registry.providersFor k = if k ∈ ps.map Prod.fst then [providerName k] else []
  named (p : Kind × Listing) : p ∈ ps → c.named.find? (providerName p.1) = some (Source.ofListing p.2)

theorem addProvider_eq (h : c.registry.providersFor p.1 = []) :
    addProvider c p = .ok { c with
      named := c.named.set (providerName p.1) (Source.ofListing p.2)
      registry := ⟨c.registry.providers.set p.1 [providerName p.1]⟩ } := by
  rw [addProvider, Auxiliary.register_eq, h, if_neg List.not_mem_nil]
  rfl

/-- Kinds that tags stand for have names of their own. -/
theorem providerName_inj {j k : Kind} (hj : Kind.ofTag j.tag = j) (hk : Kind.ofTag k.tag = k) (h : providerName j = providerName k) :
    j = k := by
  rw [← hj, ← hk, show j.tag = k.tag from h]

/-- A kind without a provider gets one, and the others keep theirs. -/
theorem Stocked.add (h : Stocked l ps c) (hp : p.1 ∉ ps.map Prod.fst) (htags : ∀ k ∈ (ps ++ [p]).map Prod.fst, Kind.ofTag k.tag = k) :
    ∃ c', addProvider c p = .ok c' ∧ Stocked l (ps ++ [p]) c' := by
  refine ⟨_, addProvider_eq ((h.providers p.1).trans (if_neg hp)), h.native, h.hooks, h.overlay, fun k => ?_, fun q hq => ?_⟩
  · have hmem : k ∈ (ps ++ [p]).map Prod.fst ↔ k ∈ ps.map Prod.fst ∨ k = p.1 := by
      rw [List.map_append, List.mem_append, List.map_singleton, List.mem_singleton]
    rw [Auxiliary.providersFor_set, h.providers]
    by_cases hk : k = p.1
    · rw [if_pos hk, if_pos (hmem.2 (Or.inr hk)), hk]
    · simp only [hmem, hk, if_false, or_false]
  · rw [Table.find?_set]
    obtain hq | hq := List.mem_append.1 hq
    · have hne : providerName q.1 ≠ providerName p.1 := by
        intro he
        have hqp := providerName_inj (htags q.1 (by simp [List.mem_map_of_mem hq])) (htags p.1 (by simp)) he
        exact hp (hqp ▸ List.mem_map_of_mem hq)
      rw [if_neg hne]
      exact h.named q hq
    · rw [List.mem_singleton.1 hq, if_pos rfl]

/-- Providers for different kinds are all registered. -/
theorem exists_catalogOf (hnodup : (ps.map Prod.fst).Nodup) (htags : ∀ k ∈ ps.map Prod.fst, Kind.ofTag k.tag = k) :
    ∃ c, catalogOf l ps = .ok c ∧ Stocked l ps c := by
  induction ps using List.reverseRecOn with
  | nil => exact ⟨_, rfl, rfl, rfl, rfl, fun _ => rfl, nofun⟩
  | append_singleton ps p ih =>
    rw [List.map_append, List.map_singleton, List.nodup_append] at hnodup
    obtain ⟨c, hc, hstocked⟩ := ih hnodup.1 fun k hk => htags k (by rw [List.map_append]; exact List.mem_append_left _ hk)
    obtain ⟨c', hadd, hstocked'⟩ := hstocked.add (fun hp => hnodup.2.2 p.1 hp p.1 List.mem_cons_self rfl) htags
    refine ⟨c', ?_, hstocked'⟩
    rw [catalogOf, foldlM_append_singleton_of_ok hc, hadd]

/-! ## Replies -/

theorem Stocked.note (h : Stocked l ps c) (who : Asked) (t : Token) : Stocked l ps (c.note who t) :=
  ⟨h.native, h.hooks, h.overlay, h.providers, h.named⟩

theorem Stocked.ask_native (h : Stocked l ps c) (t : Token) : (Sources.ask .native t c).1 = .ok (l.native.answer t) := by
  show c.native.reply t = _
  rw [h.native]
  rfl

theorem Stocked.ask_hooking (h : Stocked l ps c) (t : Token) : (Sources.ask .hooking t c).1 = .ok (l.hooks.answer t) := by
  show c.hooked t = _
  rw [Catalog.hooked, h.overlay, h.hooks]

/-- The provider for the kind of a token is asked, if there is one. -/
theorem Stocked.ask_auxiliary_of_mem (h : Stocked l ps c) (hp : p ∈ ps) (ht : t.kind = p.1) :
    Sources.ask .auxiliary t c = (.ok (p.2.answer t), c.note (.auxiliary (providerName p.1)) t) := by
  show Auxiliary.consult Catalog.askNamed t (c.registry.providersFor t.kind) c = _
  rw [h.providers, ht, if_pos (List.mem_map_of_mem hp), Auxiliary.consult, Catalog.askNamed, h.named p hp]
  show (Except.ok (Answer.merge (p.2.answer t) none), _) = _
  rw [Answer.merge_none]

theorem Stocked.ask_auxiliary_of_not_mem (h : Stocked l ps c) (ht : t.kind ∉ ps.map Prod.fst) :
    Sources.ask .auxiliary t c = (.ok none, c) := by
  show Auxiliary.consult Catalog.askNamed t (c.registry.providersFor t.kind) c = _
  rw [h.providers, if_neg ht, Auxiliary.consult]

/-- The catalog stays as it is when it is asked, but for the questions that it notes. -/
theorem Stocked.ask (h : Stocked l ps c) (category : Category) (t : Token) : Stocked l ps (Sources.ask category t c).2 := by
  cases category with
  | native => exact h.note .native t
  | hooking => exact h.note .hooking t
  | auxiliary =>
    by_cases ht : t.kind ∈ ps.map Prod.fst
    · obtain ⟨p, hp, hk⟩ := List.mem_map.1 ht
      rw [h.ask_auxiliary_of_mem hp hk.symm]
      exact h.note _ t
    · rw [h.ask_auxiliary_of_not_mem ht]
      exact h

theorem Stocked.leads (h : Stocked l ps c) (hl : Sources.Leads c c') : Stocked l ps c' := by
  induction hl with
  | refl => exact h
  | ask category t _ ih => exact ih.ask category t

/-- The auxiliary reply is that of the listing for the kind of the token, whatever the order of the providers. -/
theorem Stocked.ask_auxiliary (h : Stocked l ps c) (hperm : ps.Perm l.auxiliary.entries) (t : Token) :
    (Sources.ask .auxiliary t c).1 = .ok ((l.listing t.kind).answer t) := by
  cases hk : l.auxiliary.find? t.kind with
  | some listing =>
    have hp : (t.kind, listing) ∈ ps := hperm.mem_iff.2 (Table.mem_of_find? hk)
    rw [h.ask_auxiliary_of_mem hp rfl, Links.listing, hk]
    rfl
  | none =>
    have ht : t.kind ∉ ps.map Prod.fst := by
      rw [(hperm.map Prod.fst).mem_iff]
      exact Table.find?_eq_none_iff.1 hk
    rw [h.ask_auxiliary_of_not_mem ht, Links.listing, hk]
    rfl

end Fixture
end Lineage
