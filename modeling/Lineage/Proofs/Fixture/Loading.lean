import Lineage.Proofs.Fixture.Links

/-!
# Loading fixtures

A fixture is made of a file step by step, and each step may be refused: a kind that is taken, a token of a kind that nobody knows, a
key that is taken, an edge to a key without a token. Which files are good can be told from the file at once, and so can everything that
their fixtures answer.
-/

namespace Lineage

namespace Kind

/-- The tags of the built-in kinds. -/
def builtinTags : List String := [Kind.element.tag, Kind.virtualElement.tag, Kind.logElement.tag]

@[simp] theorem tag_ofTag (tag : String) : (ofTag tag).tag = tag := by
  rw [ofTag]
  split
  · next h => exact h.symm
  · split
    · next h => exact h.symm
    · split
      · next h => exact h.symm
      · rfl

/-- What a kind makes of an identity it makes of the identity that it made. -/
theorem make_identity_make (k : Kind) (i : Identity) : k.make (k.make i).identity = k.make i := by cases k <;> rfl

end Kind

/-- Elements are taken one after the other, and each is taken or refused. If what is known before an element tells whether the elements
are good with it, then they are all taken exactly if they are good. -/
theorem foldlM_outcome {α β ε : Type} {f : β → α → Except ε β} {b : β} (Good : List α → Prop) (Inv : List α → β → Prop)
    (hstart : Inv [] b) (hgood : ∀ xs x, Good (xs ++ [x]) → Good xs)
    (hstep : ∀ xs x b, Inv xs b →
      (∃ b', f b x = .ok b' ∧ Inv (xs ++ [x]) b') ∨ ((∃ e, f b x = .error e) ∧ ¬ Good (xs ++ [x])))
    (xs : List α) : (∃ b', xs.foldlM f b = .ok b' ∧ Inv xs b') ∨ ((∃ e, xs.foldlM f b = .error e) ∧ ¬ Good xs) := by
  induction xs using List.reverseRecOn with
  | nil => exact Or.inl ⟨b, rfl, hstart⟩
  | append_singleton xs x ih =>
    obtain ⟨b', hxs, hinv⟩ | ⟨⟨e, hxs⟩, hbad⟩ := ih
    · rw [foldlM_append_singleton_of_ok hxs]
      exact hstep xs x b' hinv
    · exact Or.inr ⟨⟨e, foldlM_append_singleton_of_error hxs x⟩, mt (hgood xs x) hbad⟩

theorem nodup_map_append_singleton {α β : Type} {f : α → β} {xs : List α} {x : α} :
    ((xs ++ [x]).map f).Nodup ↔ (xs.map f).Nodup ∧ f x ∉ xs.map f := by
  rw [List.map_append, List.map_singleton, ← List.concat_eq_append, List.nodup_concat, and_comm]

namespace Fixture

/-! ## What a file says -/

/-- The token that is declared: what the kind behind the tag makes of the identity. -/
def Entry.token (e : Entry) : Token := (Kind.ofTag e.tag).make e.identity

namespace File

/-- The keys of a file. -/
def keys (file : File) : List String := file.tokens.map Entry.key

/-- The token that is declared under a key. -/
def tokenAt? (file : File) (key : String) : Option Token := (file.tokens.find? (·.key = key)).map Entry.token

/-- An edge between the tokens that are declared at its ends. -/
def link? (file : File) (e : Edge) : Option Link := do
  let child ← file.tokenAt? e.child
  let parent ← file.tokenAt? e.parent
  pure ⟨child, parent, e.category⟩

/-- The parents that the edges of a category give to some children, in the order of the file. -/
def parents (file : File) (category : Category) (p : Token → Bool) : List Token :=
  Link.parents (file.edges.filterMap file.link?) category p

/-- Good files: the kinds are new and distinct, every token is of a known kind and has a key of its own, and every edge is between
declared keys. -/
structure Good (file : File) : Prop where
  kinds_nodup : file.kinds.Nodup
  kinds_new : ∀ tag ∈ file.kinds, tag ∉ Kind.builtinTags
  tags_known : ∀ e ∈ file.tokens, e.tag ∈ Kind.builtinTags ∨ e.tag ∈ file.kinds
  keys_nodup : file.keys.Nodup
  ends_declared : ∀ e ∈ file.edges, e.child ∈ file.keys ∧ e.parent ∈ file.keys

end File

/-! ## Kinds -/

/-- The registry knows the built-in kinds and some new ones. -/
structure Knows (kinds : List String) (r : Token.Registry) : Prop where
  nodup : kinds.Nodup
  new : ∀ tag ∈ kinds, tag ∉ Kind.builtinTags
  grown : Token.Registry.Grown .builtin kinds.reverse r
  contains_iff (tag : String) : r.contains tag = true ↔ tag ∈ Kind.builtinTags ∨ tag ∈ kinds

theorem knows_builtin : Knows [] .builtin where
  nodup := List.nodup_nil
  new := nofun
  grown := .start
  contains_iff _ := Table.contains_iff.trans (or_iff_left List.not_mem_nil).symm

/-- A kind is taken if it is new, and refused otherwise. -/
theorem Knows.register {kinds : List String} {r : Token.Registry} (h : Knows kinds r) (tag : String) :
    (∃ r', r.register (.triple tag) = .ok r' ∧ Knows (kinds ++ [tag]) r') ∨
      ((∃ e, r.register (.triple tag) = .error e) ∧
        ¬ ((kinds ++ [tag]).Nodup ∧ ∀ tag' ∈ kinds ++ [tag], tag' ∉ Kind.builtinTags)) := by
  by_cases hr : r.contains tag = true
  · refine Or.inr ⟨⟨_, if_pos hr⟩, fun ⟨hnodup, hnew⟩ => ?_⟩
    obtain hb | hk := (h.contains_iff tag).1 hr
    · exact hnew tag (by simp) hb
    · rw [← List.concat_eq_append, List.nodup_concat] at hnodup
      exact hnodup.1 hk
  · have hok : r.register (.triple tag) = .ok ⟨r.codecs.set tag (.triple tag)⟩ := if_neg hr
    have hnot := mt (h.contains_iff tag).2 hr
    rw [not_or] at hnot
    refine Or.inl ⟨_, hok, ?_, ?_, ?_, fun other => ?_⟩
    · exact List.concat_eq_append ▸ h.nodup.concat hnot.2
    · intro tag' ht
      obtain ht | ht := List.mem_append.1 ht
      · exact h.new tag' ht
      · exact List.mem_singleton.1 ht ▸ hnot.1
    · rw [List.reverse_append]
      exact .taken h.grown hok
    · rw [Token.Registry.contains, Table.contains, Table.find?_set, List.mem_append, List.mem_singleton, ← or_assoc,
        ← h.contains_iff other]
      by_cases ht : other = tag
      · simp [ht]
      · rw [if_neg ht, or_iff_left ht]
        rfl

/-- The registry of some kinds is made exactly if they are new and distinct. -/
theorem registryOf_outcome (kinds : List String) :
    (∃ r, registryOf kinds = .ok r ∧ Knows kinds r) ∨
      ((∃ e, registryOf kinds = .error e) ∧ ¬ (kinds.Nodup ∧ ∀ tag ∈ kinds, tag ∉ Kind.builtinTags)) := by
  have h := foldlM_outcome (fun kinds => kinds.Nodup ∧ ∀ tag ∈ kinds, tag ∉ Kind.builtinTags) Knows knows_builtin
    (fun kinds tag h => ⟨(List.nodup_append.1 h.1).1, fun tag' ht => h.2 tag' (List.mem_append_left [tag] ht)⟩)
    (fun kinds tag r hr => hr.register tag) kinds
  obtain ⟨r, hr, hknows⟩ | ⟨⟨e, he⟩, hbad⟩ := h
  · exact Or.inl ⟨r, by rw [registryOf, hr]; rfl, hknows⟩
  · exact Or.inr ⟨⟨.error e, by rw [registryOf, he]; rfl⟩, hbad⟩

/-- The registry makes the declared token of an entry whose kind is known. -/
theorem Knows.build_eq {kinds : List String} {r : Token.Registry} (h : Knows kinds r) {tag : String} (ht : r.contains tag = true)
    (i : Identity) : r.build tag i = .ok ((Kind.ofTag tag).make i) := by
  obtain ⟨c, hc⟩ := Option.isSome_iff_exists.1 ht
  rw [Token.Registry.build, hc]
  exact h.grown.build_eq hc i

/-! ## Tokens -/

/-- The table has the tokens of some entries under their keys. -/
structure Declared (r : Token.Registry) (es : List Entry) (tokens : Table String Token) : Prop where
  known : ∀ e ∈ es, r.contains e.tag = true
  nodup : (es.map Entry.key).Nodup
  entries : tokens.entries = es.map fun e => (e.key, e.token)

variable {kinds : List String} {r : Token.Registry} {es : List Entry} {tokens : Table String Token} {key : String} {e : Entry}

theorem Declared.keys_eq (h : Declared r es tokens) : tokens.keys = es.map Entry.key := by
  rw [Table.keys, h.entries, List.map_map]
  rfl

/-- An entry is taken if its kind is known and its key is new, and refused otherwise. -/
theorem Declared.add (h : Declared r es tokens) (hr : Knows kinds r) (e : Entry) :
    (∃ tokens', addEntry r tokens e = .ok tokens' ∧ Declared r (es ++ [e]) tokens') ∨
      ((∃ problem, addEntry r tokens e = .error problem) ∧
        ¬ ((∀ e' ∈ es ++ [e], r.contains e'.tag = true) ∧ ((es ++ [e]).map Entry.key).Nodup)) := by
  by_cases htag : r.contains e.tag = true
  · have hadd : addEntry r tokens e =
        if tokens.contains e.key then .error (.duplicateKey e.key) else .ok (tokens.set e.key e.token) := by
      rw [addEntry, hr.build_eq htag]
      rfl
    by_cases hkey : tokens.contains e.key = true
    · refine Or.inr ⟨⟨.duplicateKey e.key, hadd.trans (if_pos hkey)⟩, fun hgood => ?_⟩
      exact (nodup_map_append_singleton.1 hgood.2).2 (h.keys_eq ▸ Table.contains_iff.1 hkey)
    · have hnew : e.key ∉ es.map Entry.key := h.keys_eq ▸ mt Table.contains_iff.2 hkey
      refine Or.inl ⟨_, hadd.trans (if_neg hkey), ?_, nodup_map_append_singleton.2 ⟨h.nodup, hnew⟩, ?_⟩
      · intro e' he'
        obtain he' | he' := List.mem_append.1 he'
        · exact h.known e' he'
        · exact List.mem_singleton.1 he' ▸ htag
      · rw [Table.entries_set_of_not_mem _ (h.keys_eq ▸ hnew), h.entries, List.map_append]
        rfl
  · refine Or.inr ⟨⟨.error (.unknownKind e.tag), ?_⟩, fun hgood => htag (hgood.1 e (by simp))⟩
    have hnone : r.codecs.find? e.tag = none := Option.not_isSome_iff_eq_none.1 htag
    rw [addEntry, Token.Registry.build, hnone]
    rfl

/-- The table of some entries is made exactly if their kinds are known and their keys are distinct. -/
theorem addEntry_outcome (hr : Knows kinds r) (es : List Entry) :
    (∃ tokens, es.foldlM (addEntry r) Table.empty = .ok tokens ∧ Declared r es tokens) ∨
      ((∃ problem, es.foldlM (addEntry r) Table.empty = .error problem) ∧
        ¬ ((∀ e ∈ es, r.contains e.tag = true) ∧ (es.map Entry.key).Nodup)) :=
  foldlM_outcome (fun es => (∀ e ∈ es, r.contains e.tag = true) ∧ (es.map Entry.key).Nodup) (Declared r)
    ⟨nofun, List.nodup_nil, rfl⟩
    (fun _ e h => ⟨fun e' he => h.1 e' (List.mem_append_left [e] he), (nodup_map_append_singleton.1 h.2).1⟩)
    (fun _ e _ h => h.add hr e) es

/-- The token under a key is that of the entry with the key. -/
theorem Declared.find?_eq {file : File} (h : Declared r file.tokens tokens) (key : String) : tokens.find? key = file.tokenAt? key := by
  have hfind : ∀ es : List Entry,
      Table.findIn key (es.map fun e => (e.key, e.token)) = (es.find? (·.key = key)).map Entry.token := by
    intro es
    induction es with
    | nil => rfl
    | cons e es ih =>
      rw [List.map_cons, Table.findIn]
      by_cases he : e.key = key
      · rw [if_pos he, List.find?_cons_of_pos (by simp [he])]
        rfl
      · rw [if_neg he, List.find?_cons_of_neg (by simp [he]), ih]
  rw [Table.find?, h.entries, hfind]
  rfl

/-- The entry with a key is found by it. -/
theorem find?_key_of_mem (hnodup : (es.map Entry.key).Nodup) (he : e ∈ es) : es.find? (·.key = e.key) = some e := by
  induction es with
  | nil => cases he
  | cons a es ih =>
    rw [List.map_cons, List.nodup_cons] at hnodup
    obtain rfl | he := List.mem_cons.1 he
    · exact List.find?_cons_of_pos (by simp)
    · have hne : a.key ≠ e.key := fun hkey => hnodup.1 (hkey ▸ List.mem_map_of_mem he)
      rw [List.find?_cons_of_neg (by simp [hne]), ih hnodup.2 he]

/-! ## Edges -/

/-- The tokens at the ends of an edge, if both of its keys are declared. -/
theorem Declared.linkOf_outcome {file : File} (h : Declared r file.tokens tokens) (e : Edge) :
    (∃ x, linkOf tokens e = .ok x ∧ file.link? e = some x ∧ e.child ∈ file.keys ∧ e.parent ∈ file.keys) ∨
      ((∃ problem, linkOf tokens e = .error problem) ∧ ¬ (e.child ∈ file.keys ∧ e.parent ∈ file.keys)) := by
  have hkeys : ∀ key, key ∈ file.keys ↔ (file.tokenAt? key).isSome = true := by
    intro key
    rw [← h.find?_eq, File.keys, ← h.keys_eq, ← Table.contains_iff, Table.contains]
  rw [hkeys, hkeys, linkOf, endOf, endOf, h.find?_eq, h.find?_eq, File.link?]
  rcases file.tokenAt? e.child with _ | child
  · exact Or.inr ⟨⟨_, rfl⟩, fun hends => Bool.false_ne_true hends.1⟩
  · rcases file.tokenAt? e.parent with _ | parent
    · exact Or.inr ⟨⟨_, rfl⟩, fun hends => Bool.false_ne_true hends.2⟩
    · exact Or.inl ⟨⟨child, parent, e.category⟩, rfl, rfl, rfl, rfl⟩

/-- The links of a file are made exactly if its edges are between declared keys. -/
theorem Declared.addEdge_outcome {file : File} (h : Declared r file.tokens tokens) (edges : List Edge) :
    (∃ l, edges.foldlM (addEdge tokens) Links.empty = .ok l ∧
      (∀ e ∈ edges, e.child ∈ file.keys ∧ e.parent ∈ file.keys) ∧ l.Hold (edges.filterMap file.link?)) ∨
      ((∃ problem, edges.foldlM (addEdge tokens) Links.empty = .error problem) ∧
        ¬ ∀ e ∈ edges, e.child ∈ file.keys ∧ e.parent ∈ file.keys) := by
  refine foldlM_outcome (fun edges => ∀ e ∈ edges, e.child ∈ file.keys ∧ e.parent ∈ file.keys)
    (fun edges (l : Links) => (∀ e ∈ edges, e.child ∈ file.keys ∧ e.parent ∈ file.keys) ∧ l.Hold (edges.filterMap file.link?))
    ⟨nofun, Links.hold_empty⟩ (fun _ _ h e he => h e (List.mem_append_left _ he)) (fun edges e l hl => ?_) edges
  obtain ⟨x, hx, hlink, hends⟩ | ⟨⟨problem, hx⟩, hbad⟩ := h.linkOf_outcome e
  · refine Or.inl ⟨l.add x, by rw [addEdge, hx]; rfl, fun e' he' => ?_, ?_⟩
    · obtain he' | he' := List.mem_append.1 he'
      · exact hl.1 e' he'
      · exact List.mem_singleton.1 he' ▸ hends
    · rw [List.filterMap_append, List.filterMap_cons, hlink]
      exact hl.2.add x
  · exact Or.inr ⟨⟨problem, by rw [addEdge, hx]; rfl⟩, fun hgood => hbad (hgood e (by simp))⟩

/-- The kinds of the tokens at the ends of the edges are those that the tags stand for. -/
theorem ofTag_tag_of_mem_links {file : File} {x : Link} (hx : x ∈ file.edges.filterMap file.link?) :
    Kind.ofTag x.child.kind.tag = x.child.kind := by
  obtain ⟨e, -, hlink⟩ := List.mem_filterMap.1 hx
  obtain ⟨child, hchild, hlink⟩ := Option.bind_eq_some_iff.1 hlink
  obtain ⟨parent, -, hlink⟩ := Option.bind_eq_some_iff.1 hlink
  obtain ⟨entry, -, rfl⟩ := Option.map_eq_some_iff.1 hchild
  cases hlink
  rw [Entry.token, Kind.kind_make, Kind.tag_ofTag]

/-! ## Fixtures -/

/-- A fixture as its file says: it knows the kinds, it has the tokens, and its sources are the edges, sorted. -/
structure Loaded (file : File) (f : Fixture) : Prop where
  knows : Knows file.kinds f.registry
  declared : Declared f.registry file.tokens f.tokens
  stocked : ∃ l ps, l.Hold (file.edges.filterMap file.link?) ∧ List.Perm ps l.auxiliary.entries ∧ Stocked l ps f.sources

/-- The fixture of a file is made exactly if the file is good, whatever the order of the providers. -/
theorem ofFileBy_outcome (order : Arrangement) (file : File) :
    (∃ f, ofFileBy order file = .ok f ∧ file.Good ∧ Loaded file f) ∨
      ((∃ problem, ofFileBy order file = .error problem) ∧ ¬ file.Good) := by
  obtain ⟨r, hr, hknows⟩ | ⟨⟨problem, hr⟩, hbad⟩ := registryOf_outcome file.kinds
  · obtain ⟨tokens, htokens, hdeclared⟩ | ⟨⟨problem, htokens⟩, hbad⟩ := addEntry_outcome hknows file.tokens
    · obtain ⟨l, hl, hends, hhold⟩ | ⟨⟨problem, hl⟩, hbad⟩ := hdeclared.addEdge_outcome file.edges
      · have hperm := order.perm l.auxiliary.entries
        have hkinds := hperm.map Prod.fst
        obtain ⟨c, hc, hstocked⟩ := exists_catalogOf (l := l) (hkinds.nodup_iff.2 l.auxiliary.nodup) fun k hk => by
          obtain ⟨x, hx, rfl⟩ := hhold.kinds k (hkinds.mem_iff.1 hk)
          exact ofTag_tag_of_mem_links hx
        refine Or.inl ⟨⟨r, tokens, c⟩, ?_, ⟨hknows.nodup, hknows.new, fun e he => ?_, hdeclared.nodup, hends⟩,
          hknows, hdeclared, l, _, hhold, hperm, hstocked⟩
        · simp only [ofFileBy, hr, htokens, hl, hc, bind, Except.bind]
          rfl
        · exact (hknows.contains_iff e.tag).1 (hdeclared.known e he)
      · refine Or.inr ⟨⟨problem, ?_⟩, fun hgood => hbad hgood.ends_declared⟩
        simp only [ofFileBy, hr, htokens, hl, bind, Except.bind]
    · refine Or.inr ⟨⟨problem, ?_⟩, fun hgood => hbad ⟨fun e he => ?_, hgood.keys_nodup⟩⟩
      · simp only [ofFileBy, hr, htokens, bind, Except.bind]
      · exact (hknows.contains_iff e.tag).2 (hgood.tags_known e he)
  · refine Or.inr ⟨⟨problem, ?_⟩, fun hgood => hbad ⟨hgood.kinds_nodup, hgood.kinds_new⟩⟩
    simp only [ofFileBy, hr, bind, Except.bind]

variable {file : File} {f : Fixture} {t : Token} {c : Catalog}

/-- Whatever was asked before, the sources answer with the parents of the edges. -/
theorem Loaded.replies (h : Loaded file f) (hc : Sources.Leads f.sources c) (t : Token) :
    (Sources.ask .native t c).1 = .ok (.naming (file.parents .native (·.same t))) ∧
    (Sources.ask .auxiliary t c).1 = .ok (.naming (file.parents .auxiliary fun child => child.same t && child.kind = t.kind)) ∧
    (Sources.ask .hooking t c).1 = .ok (.naming (Token.distinct (file.parents .hooking (·.same t)))) := by
  obtain ⟨l, ps, hhold, hperm, hstocked⟩ := h.stocked
  have hstocked' := hstocked.leads hc
  rw [hstocked'.ask_native, hstocked'.ask_auxiliary hperm, hstocked'.ask_hooking, hhold.native, hhold.auxiliary, hhold.hooks]
  exact ⟨rfl, rfl, rfl⟩

/-- A declared key names its token. -/
theorem Loaded.token_key (h : Loaded file f) (he : e ∈ file.tokens) : f.token e.key = .ok e.token := by
  rw [token, h.declared.find?_eq, File.tokenAt?, find?_key_of_mem h.declared.nodup he]
  rfl

/-- A declared token is shown by the first key whose token names the same object. -/
theorem Loaded.label_eq (h : Loaded file f) (he : e ∈ file.tokens) :
    ∃ first, file.tokens.find? (·.token.same e.token) = some first ∧ f.label e.token = first.key := by
  have hsome : (file.tokens.find? (·.token.same e.token)).isSome = true :=
    List.find?_isSome.2 ⟨e, he, Token.same_self _⟩
  obtain ⟨first, hfirst⟩ := Option.isSome_iff_exists.1 hsome
  refine ⟨first, hfirst, ?_⟩
  have hentry : f.tokens.entries.find? (·.2.same e.token) = some (first.key, first.token) := by
    rw [h.declared.entries, List.find?_map]
    show (file.tokens.find? (·.token.same e.token)).map (fun e => (e.key, e.token)) = _
    rw [hfirst]
    rfl
  rw [label, hentry]

/-- The written form of a token begins with the key of the tag. -/
theorem isPrefixOf_serialize (t : Token) : Token.Wire.kindKey.toList.isPrefixOf t.serialize.toList = true := by
  have hrun : ("" : String).toList = Token.Pairs.run [] := rfl
  rw [List.isPrefixOf_iff_prefix, Token.serialize, Token.Wire.envelope,
    Token.Pairs.toList_write (Token.Pairs.toList_write hrun Token.Wire.kindKey t.kind.tag), List.nil_append, Token.Pairs.run,
    List.singleton_append, List.flatMap_cons, Token.Pairs.pair, List.append_assoc, List.append_assoc]
  exact List.prefix_append _ _

/-- A declared token is read from its written form, unless that is a key. -/
theorem Loaded.token_serialize (h : Loaded file f) (he : e ∈ file.tokens) (hkey : e.token.serialize ∉ file.keys) :
    f.token e.token.serialize = .ok e.token := by
  have hnone : f.tokens.find? e.token.serialize = none := by
    rw [Table.find?_eq_none_iff, h.declared.keys_eq]
    exact hkey
  rw [token, hnone]
  show (if _ then _ else _) = _
  rw [if_pos (isPrefixOf_serialize e.token), Token.Registry.deserialize_text, Entry.token, Kind.kind_make, Kind.tag_ofTag,
    h.knows.build_eq (h.declared.known e he), Kind.make_identity_make]
  rfl

/-- Which files are good, and what their fixtures answer, in whatever order the auxiliary providers are registered. A file is taken
exactly if its extra kinds are distinct and none is built in, every token is of a kind that is built in or listed, the keys are distinct,
and every edge is between declared keys. Then the native source gives every token the parents of the native edges of its object, the
auxiliary source those of the auxiliary edges whose child has its kind as well, and the hooks the distinct ones of the hooking edges, in
the order of the file and with no opinion if there are none. A key names its token, a token is shown by the first key of its object, and
the written form of a token is read back, kind included, unless it is a key itself. -/
theorem ofFileBy_answers (order : Arrangement) (file : File) :
    ((∃ f, ofFileBy order file = .ok f) ↔ file.Good) ∧
    ∀ f, ofFileBy order file = .ok f →
      (∀ c, Sources.Leads f.sources c → ∀ t,
        (Sources.ask .native t c).1 = .ok (.naming (file.parents .native (·.same t))) ∧
        (Sources.ask .auxiliary t c).1 = .ok (.naming (file.parents .auxiliary fun child => child.same t && child.kind = t.kind)) ∧
        (Sources.ask .hooking t c).1 = .ok (.naming (Token.distinct (file.parents .hooking (·.same t))))) ∧
      ∀ e ∈ file.tokens,
        f.token e.key = .ok e.token ∧
        (∃ first, file.tokens.find? (·.token.same e.token) = some first ∧ f.label e.token = first.key) ∧
        (e.token.serialize ∉ file.keys → f.token e.token.serialize = .ok e.token) := by
  obtain ⟨f, hf, hgood, hloaded⟩ | ⟨⟨problem, hf⟩, hbad⟩ := ofFileBy_outcome order file
  · refine ⟨⟨fun _ => hgood, fun _ => ⟨f, hf⟩⟩, fun f' hf' => ?_⟩
    cases hf.symm.trans hf'
    exact ⟨fun c hc t => hloaded.replies hc t, fun e he =>
      ⟨hloaded.token_key he, hloaded.label_eq he, hloaded.token_serialize he⟩⟩
  · refine ⟨⟨fun ⟨f, hf'⟩ => ?_, fun hgood => (hbad hgood).elim⟩, fun f hf' => ?_⟩
    all_goals cases hf.symm.trans hf'

/-- A row stands under two keys, once as an element and once as an image. The native parents of both are those of the row, the auxiliary
ones are told apart by the kind, and the row is shown by its first key. -/
theorem ofFileBy_answers_row :
    let reversed : Arrangement := ⟨List.reverse, List.reverse_perm⟩
    let row := Token.element "row" "news" "1"
    let image := Token.custom "image" "row" "news" "1"
    let home := Token.element "page" "pages" "home"
    let about := Token.element "page" "pages" "about"
    let file : File :=
      { kinds := ["image"]
        tokens := [⟨"row", "element", row.identity⟩, ⟨"image", "image", row.identity⟩, ⟨"home", "element", home.identity⟩,
          ⟨"about", "element", about.identity⟩]
        edges := [⟨"row", "home", .native⟩, ⟨"image", "about", .native⟩, ⟨"row", "home", .native⟩, ⟨"image", "about", .auxiliary⟩,
          ⟨"row", "home", .auxiliary⟩, ⟨"image", "about", .hooking⟩, ⟨"row", "about", .hooking⟩] }
    ∃ f, ofFileBy reversed file = .ok f ∧
      (Sources.ask .native image f.sources).1 = .ok (some [home, about, home]) ∧
      (Sources.ask .auxiliary image f.sources).1 = .ok (some [about]) ∧
      (Sources.ask .auxiliary row f.sources).1 = .ok (some [home]) ∧
      (Sources.ask .hooking row f.sources).1 = .ok (some [about]) ∧
      f.token "image" = .ok image ∧ f.label image = "row" ∧ f.token image.serialize = .ok image := by
  intro reversed row image home about file
  have hgood : file.Good := ⟨by decide, by decide, by decide, by decide, by decide⟩
  obtain ⟨hiff, hall⟩ := ofFileBy_answers reversed file
  obtain ⟨f, hf⟩ := hiff.2 hgood
  obtain ⟨hreplies, hkeys⟩ := hall f hf
  obtain ⟨hnative, hauxiliary, -⟩ := hreplies f.sources (.refl _) image
  obtain ⟨-, hauxiliary', hhooking⟩ := hreplies f.sources (.refl _) row
  obtain ⟨hkey, ⟨first, hfirst, hlabel⟩, hread⟩ := hkeys ⟨"image", "image", row.identity⟩ (by decide)
  cases hfirst
  exact ⟨f, hf, hnative, hauxiliary, hauxiliary', hhooking, hkey, hlabel, hread (by decide)⟩

end Fixture
end Lineage
