import Lineage.Proofs.Faithful
import Mathlib.Data.List.Nodup
import Mathlib.Data.Set.Function
import Mathlib.Logic.Equiv.Basic

/-!
# Users under other names

Users are told apart by their names, and that is all that a name is good for. If each user is given another name, and no two the same
one, the cache finds, misses and drops the same answers as before, under the other names, and since no event names a user the log stays
the same to the letter.
-/

namespace Lineage

/-- Other names for some users, a different one for each. -/
structure Renaming where
  users : Set String
  name : String → String
  injOn : Set.InjOn name users

namespace Renaming

/-- A user under the other name. Nobody stays nobody. -/
def scope (ρ : Renaming) : Scope → Scope := Option.map ρ.name

/-- Whether a scope is that of nobody, or of one of the users who are given another name. -/
def Knows (ρ : Renaming) (scope : Scope) : Prop := ∀ user ∈ scope, user ∈ ρ.users

theorem knows_of_toList {ρ : Renaming} {scope : Scope} (h : ∀ user ∈ scope.toList, user ∈ ρ.users) : ρ.Knows scope :=
  fun user hu => h user (Option.mem_toList.2 hu)

/-- Two users who change names. -/
def exchange (u v : String) : Renaming := ⟨Set.univ, Equiv.swap u v, (Equiv.swap u v).injective.injOn⟩

end Renaming

/-! ## Tables -/

namespace Table

variable {κ κ' α : Type} [DecidableEq κ'] {F : κ → κ'} {S : Set κ} {t : Table κ α} {k : κ} {v : α}

theorem entries_insertNew [DecidableEq κ] (h : k ∉ t.keys) : (t.insertNew k v).entries = t.entries ++ [(k, v)] := by
  have hput : ∀ es : List (κ × α), k ∉ es.map Prod.fst → putIn k v es = es ++ [(k, v)] := by
    intro es hes
    induction es with
    | nil => rfl
    | cons e es ih =>
      rw [List.map_cons, List.mem_cons, not_or] at hes
      rw [putIn, if_neg (Ne.symm hes.1), ih hes.2, List.cons_append]
  rw [insertNew, if_neg (mt contains_iff.1 h)]
  exact hput t.entries h

/-- The table with other keys. Where several keys become one, the first of them keeps its value. -/
def mapKeys (F : κ → κ') (t : Table κ α) : Table κ' α := t.entries.foldl (fun t' e => t'.insertNew (F e.1) e.2) empty

/-- Where no two keys become one, the values stay where they are. -/
theorem entries_mapKeys (hF : Set.InjOn F S) (ht : ∀ j ∈ t.keys, j ∈ S) :
    (t.mapKeys F).entries = t.entries.map fun e => (F e.1, e.2) := by
  have hfold : ∀ (es : List (κ × α)) (t' : Table κ' α), (t'.keys ++ es.map fun e => F e.1).Nodup →
      (es.foldl (fun t' e => t'.insertNew (F e.1) e.2) t').entries = t'.entries ++ es.map fun e => (F e.1, e.2) := by
    intro es
    induction es with
    | nil => exact fun t' _ => (List.append_nil _).symm
    | cons e es ih =>
      intro t' hnodup
      have hnew : F e.1 ∉ t'.keys := fun hmem =>
        (List.nodup_append.1 hnodup).2.2 _ hmem _ List.mem_cons_self rfl
      have hentries : (t'.insertNew (F e.1) e.2).entries = t'.entries ++ [(F e.1, e.2)] := entries_insertNew hnew
      have hkeys : (t'.insertNew (F e.1) e.2).keys = t'.keys ++ [F e.1] := by rw [keys, hentries, List.map_append, keys]; rfl
      rw [List.foldl_cons, ih _ (by rwa [hkeys, List.append_assoc]), hentries, List.append_assoc, List.map_cons]
      rfl
  have hnodup : (t.keys.map F).Nodup := List.Nodup.map_on (fun x hx y hy hxy => hF (ht x hx) (ht y hy) hxy) t.nodup
  rw [keys, List.map_map] at hnodup
  exact hfold t.entries empty hnodup

theorem size_mapKeys (hF : Set.InjOn F S) (ht : ∀ j ∈ t.keys, j ∈ S) : (t.mapKeys F).size = t.size := by
  rw [size, entries_mapKeys hF ht, List.length_map, size]

variable [DecidableEq κ]

/-- A value is found under the other key. -/
theorem find?_mapKeys (hF : Set.InjOn F S) (ht : ∀ j ∈ t.keys, j ∈ S) (hk : k ∈ S) : (t.mapKeys F).find? (F k) = t.find? k := by
  have hfind : ∀ es : List (κ × α), (∀ e ∈ es, e.1 ∈ S) → findIn (F k) (es.map fun e => (F e.1, e.2)) = findIn k es := by
    intro es hes
    induction es with
    | nil => rfl
    | cons e es ih =>
      have hiff : F e.1 = F k ↔ e.1 = k := hF.eq_iff (hes e List.mem_cons_self) hk
      simp only [List.map_cons, findIn, hiff, ih fun e' he' => hes e' (List.mem_cons_of_mem e he')]
  rw [find?, entries_mapKeys hF ht, find?]
  exact hfind t.entries fun e he => ht e.1 (List.mem_map_of_mem he)

theorem mapKeys_insertNew (hF : Set.InjOn F S) (ht : ∀ j ∈ t.keys, j ∈ S) (hk : k ∈ S) :
    (t.insertNew k v).mapKeys F = (t.mapKeys F).insertNew (F k) v := by
  have hcontains : (t.mapKeys F).contains (F k) = t.contains k := by rw [contains, contains, find?_mapKeys hF ht hk]
  by_cases h : t.contains k = true
  · rw [insertNew, if_pos h, insertNew, hcontains, if_pos h]
  · rw [mapKeys, entries_insertNew (mt contains_iff.2 h), List.foldl_append]
    rfl

end Table

/-! ## The cache -/

namespace Cache

variable {ρ : Renaming} {c : Cache} {b : Branch} {scope : Scope} {k : Key} {e : Entry}

/-- A key under the other name of its user. -/
def Key.rename (ρ : Renaming) (k : Key) : Key := { k with user := ρ.name k.user }

/-- Keys of different users stay different. -/
theorem Key.injOn_rename (ρ : Renaming) : Set.InjOn (Key.rename ρ) {k | k.user ∈ ρ.users} := by
  rintro ⟨user, x⟩ hk ⟨user', x'⟩ hk' h
  obtain ⟨hname, rfl⟩ := Key.mk.inj h
  obtain rfl := ρ.injOn hk hk' hname
  rfl

/-- A shelf with the answers of the users under their other names. -/
def Shelf.rename (ρ : Renaming) (s : Shelf) : Shelf := { s with entries := s.entries.mapKeys (Key.rename ρ) }

/-- A cache with the answers of the users under their other names. -/
def rename (ρ : Renaming) (c : Cache) : Cache := { c with native := c.native.rename ρ, hooked := c.hooked.rename ρ }

/-- Whether all answers of a cache are those of users who are given another name. -/
abbrev KnownBy (ρ : Renaming) (c : Cache) : Prop := c.Every fun _ k _ => k.user ∈ ρ.users

theorem KnownBy.of_mem_keys (h : c.KnownBy ρ) (hk : k ∈ (c.shelf b).entries.keys) : k ∈ {k : Key | k.user ∈ ρ.users} := by
  obtain ⟨e, he⟩ := Option.ne_none_iff_exists'.1 fun hnone => Table.find?_eq_none_iff.1 hnone hk
  exact h b k e he

theorem shelf_rename (ρ : Renaming) (c : Cache) (b : Branch) : (c.rename ρ).shelf b = (c.shelf b).rename ρ := by
  cases b <;> rfl

theorem withShelf_rename (ρ : Renaming) (c : Cache) (b : Branch) (s : Shelf) :
    (c.rename ρ).withShelf b (s.rename ρ) = (c.withShelf b s).rename ρ := by
  cases b <;> rfl

theorem Shelf.count_rename (ρ : Renaming) (s : Shelf) (hit : Bool) : (s.rename ρ).count hit = (s.count hit).rename ρ := by
  cases hit <;> rfl

theorem userFor_rename (ρ : Renaming) (c : Cache) (scope : Scope) :
    (c.rename ρ).userFor (ρ.scope scope) = (c.userFor scope).map ρ.name := by
  unfold userFor
  rw [show (c.rename ρ).settings = c.settings from rfl]
  split <;> rfl

theorem size_rename (h : c.KnownBy ρ) (b : Branch) : (c.rename ρ).size b = c.size b := by
  rw [size, shelf_rename]
  exact Table.size_mapKeys (Key.injOn_rename ρ) fun _ => h.of_mem_keys

/-- A shelf finds under the other name what it found before. -/
theorem find?_rename (h : c.KnownBy ρ) (hk : k.user ∈ ρ.users) :
    ((c.rename ρ).shelf b).entries.find? (k.rename ρ) = (c.shelf b).entries.find? k := by
  rw [shelf_rename]
  exact Table.find?_mapKeys (Key.injOn_rename ρ) (fun _ => h.of_mem_keys) hk

/-- A shelf keeps an answer, and drops as many, as it did before. -/
theorem keep_rename (h : c.KnownBy ρ) (hk : k.user ∈ ρ.users) (maxSize : Nat) :
    ((c.rename ρ).shelf b).keep maxSize (k.rename ρ) e =
      (((c.shelf b).keep maxSize k e).1.rename ρ, ((c.shelf b).keep maxSize k e).2) := by
  have hinsert := Table.mapKeys_insertNew (v := e) (Key.injOn_rename ρ) (fun _ => h.of_mem_keys (b := b)) hk
  have hknown : ∀ j ∈ ((c.shelf b).entries.insertNew k e).keys, j ∈ {k : Key | k.user ∈ ρ.users} := by
    intro j hj
    obtain ⟨e', he'⟩ := Option.ne_none_iff_exists'.1 fun hnone => Table.find?_eq_none_iff.1 hnone hj
    rw [Table.find?_insertNew] at he'
    split at he'
    · next hjk => exact hjk ▸ hk
    · exact h b j e' he'
  have hsize := Table.size_mapKeys (Key.injOn_rename ρ) hknown
  rw [hinsert] at hsize
  rw [shelf_rename, Shelf.keep, Shelf.rename, hsize, ← hinsert, Shelf.keep]
  split <;> rfl

/-- A lookup finds the same, and is counted in the same way. -/
theorem lookup_rename (h : c.KnownBy ρ) (hs : ρ.Knows scope) (b : Branch) (t : Token) :
    (c.rename ρ).lookup b (ρ.scope scope) t = ((c.lookup b scope t).1, (c.lookup b scope t).2.rename ρ) := by
  unfold lookup
  rw [userFor_rename]
  cases hu : c.userFor scope with
  | none => rfl
  | some user =>
    have hfind := find?_rename (k := ⟨user, t.identity⟩) (b := b) h (hs user (userFor_eq_some hu).2)
    dsimp only [Option.map_some]
    rw [show (⟨ρ.name user, t.identity⟩ : Key) = Key.rename ρ ⟨user, t.identity⟩ from rfl, hfind, shelf_rename, Shelf.count_rename,
      withShelf_rename]

/-- An answer is kept, and as many are dropped as before. -/
theorem add_rename (h : c.KnownBy ρ) (hs : ρ.Knows scope) (b : Branch) (t : Token) (a : Answer) :
    (c.rename ρ).add b (ρ.scope scope) t a = ((c.add b scope t a).1.rename ρ, (c.add b scope t a).2) := by
  unfold add
  rw [userFor_rename]
  cases hu : c.userFor scope with
  | none => rfl
  | some user =>
    have hkeep := keep_rename (k := ⟨user, t.identity⟩) (b := b) (e := ⟨t, a⟩) h (hs user (userFor_eq_some hu).2)
      c.settings.maxSize
    dsimp only [Option.map_some]
    rw [show (⟨ρ.name user, t.identity⟩ : Key) = Key.rename ρ ⟨user, t.identity⟩ from rfl,
      show (c.rename ρ).settings = c.settings from rfl, hkeep]
    dsimp only
    rw [withShelf_rename]

theorem debug_rename (h : c.KnownBy ρ) : (c.rename ρ).debug = c.debug := by
  rw [debug, size_rename h, size_rename h, debug]
  rfl

end Cache

/-! ## Contexts -/

namespace Context

variable {σ : Type} {ρ : Renaming} {scope : Scope}

/-- A context with the answers of the users under their other names. -/
def rename (ρ : Renaming) (c : Context σ) : Context σ := { c with cache := c.cache.rename ρ }

/-- Two contexts that differ in the names of the users at most. -/
structure Renamed (ρ : Renaming) (c c' : Context σ) : Prop where
  eq : c' = c.rename ρ
  known : c.cache.KnownBy ρ

theorem renamed_new (ρ : Renaming) (sources : σ) (settings : CacheSettings) :
    Renamed ρ (new sources settings) (new sources settings) :=
  ⟨rfl, Cache.every_new _ settings⟩

theorem emit_mirrors (e : Log.Event) : Act.Mirrors (Renamed ρ) Eq (emit e : Run (Context σ) Unit) (emit e) := by
  refine Act.Mirrors.modify fun c c' hc => ⟨?_, hc.known⟩
  rw [hc.eq]
  rfl

/-- A lookup finds the same on both sides, and logs the same, since the event does not name the user. -/
theorem lookup_mirrors (hs : ρ.Knows scope) (b : Branch) (t : Token) :
    Act.Mirrors (Renamed ρ) Eq (lookup b scope t : Run (Context σ) (Option Cache.Entry)) (lookup b (ρ.scope scope) t) := by
  rintro c _ ⟨rfl, hc⟩
  have hknown : (c.cache.lookup b scope t).2.KnownBy ρ := hc.lookup b scope t
  unfold lookup
  rw [show (c.rename ρ).cache = c.cache.rename ρ from rfl, Cache.lookup_rename hc hs, Cache.userFor_rename]
  dsimp only
  cases c.cache.userFor scope with
  | none => exact ⟨.ok rfl, rfl, hknown⟩
  | some user => exact ⟨.ok rfl, rfl, hknown⟩

/-- What is kept is kept on both sides, and an overflow is logged on both. -/
theorem keep_mirrors (hs : ρ.Knows scope) (b : Branch) (t : Token) (a : Answer) :
    Act.Mirrors (Renamed ρ) Eq (keep b scope t a : Run (Context σ) Unit) (keep b (ρ.scope scope) t a) := by
  rintro c _ ⟨rfl, hc⟩
  have hknown : (c.cache.add b scope t a).1.KnownBy ρ :=
    hc.add fun user hu _ => hs user (Cache.userFor_eq_some hu).2
  unfold keep
  rw [show (c.rename ρ).cache = c.cache.rename ρ from rfl, Cache.add_rename hc hs]
  rcases hadd : c.cache.add b scope t a with ⟨cache, _ | dropped⟩
  · rw [hadd] at hknown
    exact ⟨.ok rfl, rfl, hknown⟩
  · rw [hadd] at hknown
    exact ⟨.ok rfl, rfl, hknown⟩

theorem flush_mirrors : Act.Mirrors (Renamed ρ) Eq (flush : Run (Context σ) Unit) flush := by
  refine Act.Mirrors.modify fun c c' hc => ⟨?_, Cache.every_clear _ c.cache⟩
  rw [hc.eq]
  rfl

/-- What is logged on both sides is the same if what happens between start and end is alike. -/
theorem loggedBy_mirrors {s t α β : Type} {R : s → t → Prop} {A : α → β → Prop} {emit : Log.Event → Run s Unit}
    {emit₀ : Log.Event → Run t Unit} {r : Run s α} {q : Run t β} (h : Act.Mirrors R A r q)
    (hemit : ∀ e, Act.Mirrors R Eq (emit e) (emit₀ e)) {target op : String} {fields : List (String × Log.Value)}
    {onSuccess : α → List (String × Log.Value)} {onSuccess₀ : β → List (String × Log.Value)}
    {onFailure : List (String × Log.Value)} (hsuccess : ∀ a b, A a b → onSuccess a = onSuccess₀ b) :
    Act.Mirrors R A (loggedBy emit target op fields onSuccess onFailure r)
      (loggedBy emit₀ target op fields onSuccess₀ onFailure q) := by
  refine (hemit _).bind fun _ _ _ => h.attempt.bind fun x y hxy => ?_
  cases hxy with
  | ok hab =>
    dsimp only
    rw [hsuccess _ _ hab]
    exact (hemit _).bind fun _ _ _ => Act.Mirrors.pure hab
  | error e => exact (hemit _).bind fun _ _ _ => Act.Mirrors.fail e

variable [Sources σ]

theorem ask_mirrors (category : Category) (t : Token) :
    Act.Mirrors (Renamed ρ) Eq (ask category t : Run (Context σ) Answer) (ask category t) := by
  rintro c _ ⟨rfl, hc⟩
  unfold ask
  rw [show (c.rename ρ).sources = c.sources from rfl]
  rcases Sources.ask category t c.sources with ⟨cause | a, sources⟩
  · exact ⟨.error _, rfl, hc⟩
  · exact ⟨.ok rfl, rfl, hc⟩

theorem askMerged_mirrors (t : Token) : Act.Mirrors (Renamed ρ) Eq (askMerged t : Run (Context σ) Answer) (askMerged t) := by
  refine (ask_mirrors .auxiliary t).bind fun a _ ha => (ask_mirrors .hooking t).bind fun b _ hb => Act.Mirrors.pure ?_
  rw [ha, hb]

theorem askBranch_mirrors (b : Branch) (t : Token) :
    Act.Mirrors (Renamed ρ) Eq (askBranch b t : Run (Context σ) Answer) (askBranch b t) := by
  cases b with
  | native => exact ask_mirrors .native t
  | hooked => exact askMerged_mirrors t

/-- Parents are the same on both sides, from the cache or from the sources. -/
theorem parents_mirrors (hs : ρ.Knows scope) (b : Branch) (t : Token) :
    Act.Mirrors (Renamed ρ) Eq (parents scope b t : Run (Context σ) Answer) (parents (ρ.scope scope) b t) := by
  refine (lookup_mirrors hs b t).bind fun found _ hfound => ?_
  subst hfound
  cases found with
  | some entry => exact Act.Mirrors.pure rfl
  | none =>
    refine (askBranch_mirrors b t).bind fun a _ ha => ?_
    subst ha
    exact (keep_mirrors hs b t a).bind fun _ _ _ => Act.Mirrors.pure rfl

end Context
end Lineage
