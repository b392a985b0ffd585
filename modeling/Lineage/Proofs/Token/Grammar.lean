import Lineage.Proofs.Token.Pairs

/-!
# What can be read as pairs

The texts that can be read are the runs of items `key='body'`. Every text is a run of items and a rest, and the rest is either empty or
broken: it has no equals sign, or no quote behind its first one, or no end of the body that this quote opens. A rest that is broken
cannot begin with an item, so the items and the rest are settled by the text, and so is what reading it gives.
-/

namespace Lineage.Token.Pairs

/-! ## Bodies -/

/-- What may stand between the quotes of an item: characters other than the quote and the backslash, and any character behind a
backslash. -/
inductive Body : List Char → Prop where
  | nil : Body []
  | plain {c : Char} {body : List Char} : c ≠ '\'' → c ≠ '\\' → Body body → Body (c :: body)
  | escaped (c : Char) {body : List Char} : Body body → Body ('\\' :: c :: body)

/-- A body without the backslashes that stand before other characters. -/
def unescape : List Char → List Char
  | [] => []
  | '\\' :: c :: cs => c :: unescape cs
  | c :: cs => c :: unescape cs

theorem unescape_cons {c : Char} (h : c ≠ '\\') (cs : List Char) : unescape (c :: cs) = c :: unescape cs := by
  rw [unescape]
  exact fun _ _ h' => absurd h' h

/-- A character that is neither a quote nor a backslash is read as it is. -/
theorem readValue_cons {c : Char} (hq : c ≠ '\'') (hs : c ≠ '\\') (cs : List Char) :
    readValue (c :: cs) = (readValue cs).map fun r => (c :: r.1, r.2) := by
  rw [readValue]
  · exact hq
  · exact fun h => absurd h hs
  · exact fun _ _ h => absurd h hs

variable {body body' : List Char}

/-- A body is read up to the quote behind it, and its value is the body without the backslashes. -/
theorem Body.readValue_quote (h : Body body) (rest : List Char) :
    readValue (body ++ '\'' :: rest) = .ok (unescape body, rest) := by
  induction h with
  | nil => rfl
  | plain hq hs _ ih =>
    rw [List.cons_append, readValue_cons hq hs, ih, unescape_cons hs]
    rfl
  | escaped c _ ih =>
    rw [List.cons_append, List.cons_append, readValue, ih]
    rfl

/-- A body without a quote behind it does not end. -/
theorem Body.readValue_inside (h : Body body) : readValue body = .error .inside := by
  induction h with
  | nil => rfl
  | plain hq hs _ ih =>
    rw [readValue_cons hq hs, ih]
    rfl
  | escaped c _ ih =>
    rw [readValue, ih]
    rfl

/-- A body with nothing but a backslash behind it does not end either. -/
theorem Body.readValue_slash (h : Body body) : readValue (body ++ ['\\']) = .error .afterBackslash := by
  induction h with
  | nil => rfl
  | plain hq hs _ ih =>
    rw [List.cons_append, readValue_cons hq hs, ih]
    rfl
  | escaped c _ ih =>
    rw [List.cons_append, List.cons_append, readValue, ih]
    rfl

/-- Every text begins with a body, and this body is followed by a quote, by nothing, or by a backslash and nothing. -/
theorem body_cases (cs : List Char) :
    (∃ body rest, Body body ∧ cs = body ++ '\'' :: rest) ∨ Body cs ∨ ∃ body, Body body ∧ cs = body ++ ['\\'] := by
  fun_induction readValue cs with
  | case1 => exact .inr (.inl .nil)
  | case2 cs => exact .inl ⟨[], cs, .nil, rfl⟩
  | case3 => exact .inr (.inr ⟨[], .nil, rfl⟩)
  | case4 c cs ih =>
    rcases ih with ⟨body, rest, h, rfl⟩ | h | ⟨body, h, rfl⟩
    · exact .inl ⟨_, rest, .escaped c h, rfl⟩
    · exact .inr (.inl (.escaped c h))
    · exact .inr (.inr ⟨_, .escaped c h, rfl⟩)
  | case5 c cs hq hs hs' ih =>
    have hslash : c ≠ '\\' := by
      rintro rfl
      cases cs with
      | nil => exact hs rfl rfl
      | cons d ds => exact hs' d ds rfl rfl
    rcases ih with ⟨body, rest, h, rfl⟩ | h | ⟨body, h, rfl⟩
    · exact .inl ⟨_, rest, .plain hq hslash h, rfl⟩
    · exact .inr (.inl (.plain hq hslash h))
    · exact .inr (.inr ⟨_, .plain hq hslash h, rfl⟩)

/-- The bodies are the texts that are read to their end without a quote that closes them. -/
theorem body_iff : Body body ↔ readValue body = .error .inside := by
  refine ⟨Body.readValue_inside, fun h => ?_⟩
  rcases body_cases body with ⟨b, rest, hb, rfl⟩ | hb | ⟨b, hb, rfl⟩
  · rw [hb.readValue_quote] at h
    cases h
  · exact hb
  · rw [hb.readValue_slash] at h
    cases h

instance (body : List Char) : Decidable (Body body) :=
  match h : readValue body with
  | .error .inside => .isTrue (body_iff.2 h)
  | .error .afterBackslash => .isFalse fun hb => nomatch h.symm.trans (body_iff.1 hb)
  | .ok _ => .isFalse fun hb => nomatch h.symm.trans (body_iff.1 hb)

/-- The body before a quote is settled: no body goes on behind the quote that ends another. -/
theorem Body.quote_inj (h : Body body) (h' : Body body') {rest rest' : List Char}
    (he : body ++ '\'' :: rest = body' ++ '\'' :: rest') : body = body' ∧ rest = rest' := by
  induction h generalizing body' with
  | nil =>
    cases h' with
    | nil => exact ⟨rfl, (List.cons.inj he).2⟩
    | plain hq _ _ => exact absurd (List.cons.inj he).1.symm hq
    | escaped c _ => cases (List.cons.inj he).1
  | plain hq hs _ ih =>
    cases h' with
    | nil => exact absurd (List.cons.inj he).1 hq
    | plain _ _ h' =>
      obtain ⟨rfl, htail⟩ := List.cons.inj he
      obtain ⟨rfl, hrest⟩ := ih h' htail
      exact ⟨rfl, hrest⟩
    | escaped c _ => exact absurd (List.cons.inj he).1 hs
  | escaped c _ ih =>
    cases h' with
    | nil => cases (List.cons.inj he).1
    | plain _ hs _ => exact absurd (List.cons.inj he).1.symm hs
    | escaped c' h' =>
      obtain ⟨rfl, htail⟩ := List.cons.inj (List.cons.inj he).2
      obtain ⟨rfl, hrest⟩ := ih h' htail
      exact ⟨rfl, hrest⟩

/-! ## Items -/

/-- An item of a text: a key without an equals sign, and a body. -/
structure Item where
  key : List Char
  body : List Char
  free : '=' ∉ key
  isBody : Body body

/-- The text of an item. -/
def Item.text (i : Item) : List Char := i.key ++ '=' :: '\'' :: i.body ++ ['\'']

/-- The pair that an item stands for. -/
def Item.pair (i : Item) : String × String := (String.ofList i.key, String.ofList (unescape i.body))

/-- The text of items, one after the other. -/
def text (items : List Item) : List Char := items.flatMap Item.text

/-- The value of the last item with a key. -/
def lastValue (items : List Item) (key : String) : Option String :=
  ((items.map Item.pair).reverse.find? (·.1 = key)).map Prod.snd

/-- A text that is not empty and does not begin with an item, and what is wrong with it. -/
inductive Broken : List Char → Malformed → Prop where
  | noValue {key : List Char} : key ≠ [] → '=' ∉ key → Broken key (.noValue (String.ofList key))
  | notQuoted {key rest : List Char} : '=' ∉ key → rest.head? ≠ some '\'' →
      Broken (key ++ '=' :: rest) (.notQuoted (String.ofList key))
  | danglingEscape {key body : List Char} : '=' ∉ key → Body body →
      Broken (key ++ '=' :: '\'' :: (body ++ ['\\'])) (.danglingEscape (String.ofList key))
  | unterminated {key body : List Char} : '=' ∉ key → Body body →
      Broken (key ++ '=' :: '\'' :: body) (.unterminated (String.ofList key))

variable {i j : Item} {items items' : List Item} {cs rest rest' : List Char} {e : Malformed}

theorem Item.text_append (i : Item) (rest : List Char) :
    i.text ++ rest = i.key ++ '=' :: '\'' :: (i.body ++ '\'' :: rest) := by
  simp only [Item.text, List.append_assoc, List.cons_append, List.nil_append]

/-- An item is read as its pair, and what follows is read on its own. -/
theorem Item.read_append (i : Item) (rest : List Char) : read (i.text ++ rest) = (read rest).map (i.pair :: ·) := by
  rw [i.text_append, read_quoted i.free, i.isBody.readValue_quote]
  rfl

/-- Items are read as their pairs, and what follows is read on its own. -/
theorem read_text_append (items : List Item) (rest : List Char) :
    read (text items ++ rest) = (read rest).map (items.map Item.pair ++ ·) := by
  induction items with
  | nil => cases h : read rest <;> simp [text, Except.map, h]
  | cons i items ih =>
    rw [text, List.flatMap_cons, List.append_assoc, i.read_append, ← text, ih]
    cases read rest <;> rfl

/-- Without an equals sign there is no key. -/
theorem readKey_eq_none (h : '=' ∉ cs) : readKey cs = none := by
  induction cs with
  | nil => rfl
  | cons c cs ih =>
    rw [List.mem_cons, not_or] at h
    rw [readKey, ih h.2, Option.map_none]
    exact Ne.symm h.1

/-- A key whose value does not begin with a quote is not read. -/
theorem read_notQuoted {key : List Char} (h : '=' ∉ key) (hq : rest.head? ≠ some '\'') :
    read (key ++ '=' :: rest) = .error (.notQuoted (String.ofList key)) := by
  have hkey := readKey_append h rest
  rw [read, if_neg (by simp)]
  split
  · next hk =>
    rw [hkey] at hk
    cases hk
  · next k body hk =>
    rw [hkey] at hk
    cases hk
    exact absurd rfl hq
  · next hk =>
    rw [hkey] at hk
    cases hk
    rfl

/-- What is broken is not read. -/
theorem Broken.read_eq (h : Broken cs e) : read cs = .error e := by
  cases h with
  | noValue hne hkey =>
    rw [read, if_neg hne]
    split
    · rfl
    all_goals next hk => rw [readKey_eq_none hkey] at hk; cases hk
  | notQuoted hkey hrest => exact read_notQuoted hkey hrest
  | danglingEscape hkey hbody => rw [read_quoted hkey, hbody.readValue_slash]
  | unterminated hkey hbody => rw [read_quoted hkey, hbody.readValue_inside]

/-- A text that is not empty begins with an item or is broken. -/
theorem item_or_broken (h : cs ≠ []) : (∃ i rest, cs = Item.text i ++ rest) ∨ ∃ e, Broken cs e := by
  by_cases hmem : '=' ∈ cs
  · obtain ⟨key, after, rfl, hkey⟩ := List.eq_append_cons_of_mem hmem
    by_cases hquote : after.head? = some '\''
    · obtain ⟨cs, rfl⟩ := List.head?_eq_some_iff.1 hquote
      rcases body_cases cs with ⟨body, rest, hbody, rfl⟩ | hbody | ⟨body, hbody, rfl⟩
      · let i : Item := ⟨key, body, hkey, hbody⟩
        exact .inl ⟨i, rest, (i.text_append rest).symm⟩
      · exact .inr ⟨_, .unterminated hkey hbody⟩
      · exact .inr ⟨_, .danglingEscape hkey hbody⟩
    · exact .inr ⟨_, .notQuoted hkey hquote⟩
  · exact .inr ⟨_, .noValue h hmem⟩

/-- Every text is a run of items and a rest that is empty or broken. -/
theorem text_cases (cs : List Char) : ∃ items rest, cs = text items ++ rest ∧ (rest = [] ∨ ∃ e, Broken rest e) := by
  induction hn : cs.length using Nat.strongRecOn generalizing cs with
  | ind n ih =>
    by_cases hcs : cs = []
    · exact ⟨[], [], hcs, .inl rfl⟩
    · rcases item_or_broken hcs with ⟨i, after, rfl⟩ | hbroken
      · have hlength : after.length < n := by
          rw [← hn, i.text_append]
          simp only [List.length_append, List.length_cons]
          omega
        obtain ⟨items, rest, rfl, hrest⟩ := ih _ hlength after rfl
        exact ⟨i :: items, rest, by simp [text], hrest⟩
      · exact ⟨[], cs, rfl, .inr hbroken⟩

/-- What is read are the pairs of a run of items. -/
theorem read_eq_ok_iff {ps : List (String × String)} :
    read cs = .ok ps ↔ ∃ items, cs = text items ∧ ps = items.map Item.pair := by
  constructor
  · intro h
    obtain ⟨items, rest, rfl, rfl | ⟨e, hbroken⟩⟩ := text_cases cs
    · refine ⟨items, List.append_nil _, ?_⟩
      rw [read_text_append, read, if_pos rfl] at h
      simpa [Except.map] using h.symm
    · rw [read_text_append, hbroken.read_eq] at h
      cases h
  · rintro ⟨items, rfl, rfl⟩
    rw [← List.append_nil (text items), read_text_append, read, if_pos rfl]
    simp [Except.map]

/-- What is not read is a run of items with something broken behind it, and the reason is what is wrong with that. -/
theorem read_eq_error_iff : read cs = .error e ↔ ∃ items rest, cs = text items ++ rest ∧ Broken rest e := by
  constructor
  · intro h
    obtain ⟨items, rest, rfl, rfl | ⟨e', hbroken⟩⟩ := text_cases cs
    · rw [read_text_append, read, if_pos rfl] at h
      cases h
    · rw [read_text_append, hbroken.read_eq] at h
      cases h
      exact ⟨items, rest, rfl, hbroken⟩
  · rintro ⟨items, rest, rfl, hbroken⟩
    rw [read_text_append, hbroken.read_eq]
    rfl

/-- The item that a text begins with is settled. -/
theorem Item.text_append_inj (h : i.text ++ rest = j.text ++ rest') : i = j ∧ rest = rest' := by
  obtain ⟨key, body, hkey, hbody⟩ := i
  obtain ⟨key', body', hkey', hbody'⟩ := j
  rw [Item.text_append, Item.text_append] at h
  have hread := readKey_append hkey ('\'' :: (body ++ '\'' :: rest))
  rw [h, readKey_append hkey'] at hread
  obtain ⟨rfl, htail⟩ : key' = key ∧ body' ++ '\'' :: rest' = body ++ '\'' :: rest := by simpa using hread
  obtain ⟨rfl, rfl⟩ := hbody.quote_inj hbody' htail.symm
  exact ⟨rfl, rfl⟩

/-- A text is a run of items in one way only. -/
theorem text_inj (h : text items = text items') : items = items' := by
  induction items generalizing items' with
  | nil =>
    cases items' with
    | nil => rfl
    | cons j items' => simp [text, Item.text] at h
  | cons i items ih =>
    cases items' with
    | nil => simp [text, Item.text] at h
    | cons j items' =>
      rw [text, text, List.flatMap_cons, List.flatMap_cons] at h
      obtain ⟨rfl, htail⟩ := Item.text_append_inj h
      rw [ih htail]

/-! ## Tables -/

/-- The table of a text that is a run of items. -/
theorem parse_of_items {x : String} (h : x.toList = text items) : parse x = .ok (table (items.map Item.pair)) := by
  rw [parse, read_eq_ok_iff.2 ⟨items, h, rfl⟩]
  rfl

/-- A text is read as a table exactly if it is a run of items. -/
theorem parse_eq_ok_iff {x : String} {t : Table String String} :
    parse x = .ok t ↔ ∃ items, x.toList = text items ∧ t = table (items.map Item.pair) := by
  constructor
  · intro h
    cases hread : read x.toList with
    | error e =>
      rw [parse, hread] at h
      cases h
    | ok ps =>
      obtain ⟨items, hx, rfl⟩ := read_eq_ok_iff.1 hread
      rw [parse_of_items hx] at h
      cases h
      exact ⟨items, hx, rfl⟩
  · rintro ⟨items, hx, rfl⟩
    exact parse_of_items hx

/-- A text is refused exactly if something broken stands behind its items. -/
theorem parse_eq_error_iff {x : String} :
    parse x = .error e ↔ ∃ items rest, x.toList = text items ++ rest ∧ Broken rest e := by
  rw [parse, ← read_eq_error_iff]
  cases read x.toList with
  | error e' => simp only [Except.map, Except.error.injEq]
  | ok ps => simp only [Except.map, reduceCtorEq]

/-- Writing pairs at the end of a run gives the run with those pairs. -/
theorem toList_foldl_write {x : String} {ps : List (String × String)} (hx : x.toList = run ps) (qs : List (String × String)) :
    (qs.foldl (fun x p => write x p.1 p.2) x).toList = run (ps ++ qs) := by
  induction qs generalizing x ps with
  | nil => rwa [List.foldl_nil, List.append_nil]
  | cons q qs ih => rw [List.foldl_cons, ih (toList_write hx q.1 q.2), List.append_assoc, List.singleton_append]

/-- A text is read exactly if it is a run of items. It is one in one way only, and the table that is read has for each key the body of
its last item, without the backslashes that stand before other characters. Every other text is a run of items with something broken
behind it, and is refused for that. In particular what was written pair by pair, with keys that have no equals sign, is read, and each
key has the value that was written last. -/
theorem parse_accepts_items (x : String) :
    ((∃ t, parse x = .ok t) ↔ ∃ items, x.toList = text items) ∧
    (∀ items items', x.toList = text items → x.toList = text items' → items = items') ∧
    (∀ items, x.toList = text items → ∃ t, parse x = .ok t ∧ ∀ key, t.find? key = lastValue items key) ∧
    ((¬∃ items, x.toList = text items) → ∃ e, parse x = .error e) ∧
    (∀ e, parse x = .error e ↔ ∃ items rest, x.toList = text items ++ rest ∧ Broken rest e) ∧
    (∀ ps : List (String × String), (∀ p ∈ ps, '=' ∉ p.1.toList) → x = ps.foldl (fun x p => write x p.1 p.2) "" →
      ∃ t, parse x = .ok t ∧ ∀ key, t.find? key = (ps.reverse.find? (·.1 = key)).map Prod.snd) := by
  have haccepts : (∃ t, parse x = .ok t) ↔ ∃ items, x.toList = text items := by
    refine ⟨fun ⟨t, ht⟩ => ?_, fun ⟨items, hx⟩ => ⟨_, parse_of_items hx⟩⟩
    obtain ⟨items, hx, -⟩ := parse_eq_ok_iff.1 ht
    exact ⟨items, hx⟩
  refine ⟨haccepts, fun items items' h h' => text_inj (h.symm.trans h'),
    fun items hx => ⟨_, parse_of_items hx, fun key => find?_table _ key⟩, fun hx => ?_, fun e => parse_eq_error_iff,
    fun ps hps hx => ?_⟩
  · cases hparse : parse x with
    | error e => exact ⟨e, rfl⟩
    | ok t => exact absurd (haccepts.1 ⟨t, hparse⟩) hx
  · subst hx
    have hrun : ("" : String).toList = run [] := rfl
    exact ⟨_, parse_of_run (toList_foldl_write hrun ps) hps, fun key => find?_table ps key⟩

/-- A key with a quote in it that stands twice, once with a backslash that is not needed, and the same text without its last quote. -/
theorem parse_accepts_items_twice :
    (∃ t, parse "it's='\\a\\\\'it's='b'" = .ok t ∧ t.find? "it's" = some "b") ∧
    parse "it's='\\a\\\\'it's='b" = .error (.unterminated "it's") ∧
    ∃ t, parse (write (write "" "k" "it's") "k" "\\") = .ok t ∧ t.find? "k" = some "\\" := by
  let first : Item := ⟨"it's".toList, "\\a\\\\".toList, by decide, by decide⟩
  let last : Item := ⟨"it's".toList, "b".toList, by decide, by decide⟩
  refine ⟨?_, ?_, ?_⟩
  · obtain ⟨t, ht, hfind⟩ := (parse_accepts_items "it's='\\a\\\\'it's='b'").2.2.1 [first, last] rfl
    exact ⟨t, ht, (hfind _).trans rfl⟩
  · have hbroken : Broken "it's='b".toList (.unterminated "it's") := .unterminated first.free last.isBody
    exact ((parse_accepts_items _).2.2.2.2.1 _).2 ⟨[first], _, rfl, hbroken⟩
  · obtain ⟨t, ht, hfind⟩ := (parse_accepts_items _).2.2.2.2.2 [("k", "it's"), ("k", "\\")] (by decide) rfl
    exact ⟨t, ht, (hfind _).trans rfl⟩

end Lineage.Token.Pairs
