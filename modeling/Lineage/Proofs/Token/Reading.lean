import Lineage.Proofs.Token.Grammar
import Lineage.Proofs.Token.RoundTrip

/-!
# What a registry reads of any text

A text tells a tag and an identity if it is a run of items with a tag and a payload, and the payload is one with a type, a source and an
id. Only the last item with a key counts and other keys do not matter, so many texts tell the same. A text that tells nothing is
malformed, one that tells a tag without a codec is of an unknown kind, and from every other text a token is made. A codec that made a
token makes it again of the identity of that token, so writing the token gives a text from which it is read back. And since a registry
never gives up a codec, a text that was read once is always read as the same token.
-/

namespace Lineage.Token

namespace Pairs

/-- A text is a run of items in which the last one with a key has some value. -/
def Says (x key value : String) : Prop := ∃ items, x.toList = text items ∧ lastValue items key = some value

/-- A text is no run of items, or one without an item for one of some keys. -/
def Lacks (x : String) (keys : List String) : Prop :=
  (¬∃ items, x.toList = text items) ∨ ∃ items, x.toList = text items ∧ ∃ key ∈ keys, lastValue items key = none

variable {x key value : String} {keys : List String} {t : Table String String} {e : Malformed}

/-- A key has one value at most. -/
theorem Says.unique {value' : String} (h : Says x key value) (h' : Says x key value') : value = value' := by
  obtain ⟨items, hx, hvalue⟩ := h
  obtain ⟨items', hx', hvalue'⟩ := h'
  rw [text_inj (hx.symm.trans hx'), hvalue'] at hvalue
  exact (Option.some.inj hvalue).symm

theorem says_iff_of_ok (h : parse x = .ok t) : Says x key value ↔ t.find? key = some value := by
  obtain ⟨items, hx, rfl⟩ := parse_eq_ok_iff.1 h
  rw [find?_table]
  constructor
  · rintro ⟨items', hx', hvalue⟩
    rwa [text_inj (hx.symm.trans hx')]
  · exact fun hvalue => ⟨items, hx, hvalue⟩

theorem not_says_of_error (h : parse x = .error e) : ¬Says x key value := by
  rintro ⟨items, hx, -⟩
  rw [parse_of_items hx] at h
  cases h

theorem lacks_iff_of_ok (h : parse x = .ok t) : Lacks x keys ↔ ∃ key ∈ keys, t.find? key = none := by
  obtain ⟨items, hx, rfl⟩ := parse_eq_ok_iff.1 h
  simp only [find?_table]
  constructor
  · rintro (hnot | ⟨items', hx', hnone⟩)
    · exact absurd ⟨items, hx⟩ hnot
    · rwa [text_inj (hx.symm.trans hx')]
  · exact fun hnone => .inr ⟨items, hx, hnone⟩

theorem lacks_of_error (h : parse x = .error e) : Lacks x keys := by
  refine .inl ?_
  rintro ⟨items, hx⟩
  rw [parse_of_items hx] at h
  cases h

end Pairs

namespace Wire

variable {x tag payload : String} {i : Identity}

/-- The tag and the payload that are read are those that the envelope says. -/
theorem readEnvelope_eq_ok_iff :
    readEnvelope x = .ok (tag, payload) ↔ Pairs.Says x kindKey tag ∧ Pairs.Says x payloadKey payload := by
  cases h : Pairs.parse x with
  | error e => simp [readEnvelope, h, bind, Except.bind, Pairs.not_says_of_error h]
  | ok t =>
    rw [Pairs.says_iff_of_ok h, Pairs.says_iff_of_ok h]
    cases hk : t.find? kindKey <;> cases hp : t.find? payloadKey <;>
      simp [readEnvelope, require, h, hk, hp, bind, Except.bind, pure, Except.pure]

/-- An envelope is refused if it lacks the tag or the payload. -/
theorem readEnvelope_fails_iff : (∃ e, readEnvelope x = .error e) ↔ Pairs.Lacks x [kindKey, payloadKey] := by
  cases h : Pairs.parse x with
  | error e => simp [readEnvelope, h, bind, Except.bind, Pairs.lacks_of_error h]
  | ok t =>
    rw [Pairs.lacks_iff_of_ok h]
    cases hk : t.find? kindKey <;> cases hp : t.find? payloadKey <;>
      simp [readEnvelope, require, h, hk, hp, bind, Except.bind, pure, Except.pure]

/-- The identity that is read is the one that the payload says. -/
theorem readPayload_eq_ok_iff :
    readPayload x = .ok i ↔ Pairs.Says x typeKey i.type ∧ Pairs.Says x sourceKey i.source ∧ Pairs.Says x idKey i.id := by
  obtain ⟨type, source, id⟩ := i
  cases h : Pairs.parse x with
  | error e => simp [readPayload, h, bind, Except.bind, Pairs.not_says_of_error h]
  | ok t =>
    rw [Pairs.says_iff_of_ok h, Pairs.says_iff_of_ok h, Pairs.says_iff_of_ok h]
    cases ht : t.find? typeKey <;> cases hs : t.find? sourceKey <;> cases hi : t.find? idKey <;>
      simp [readPayload, require, h, ht, hs, hi, bind, Except.bind, pure, Except.pure]

/-- A payload is refused if it lacks the type, the source or the id. -/
theorem readPayload_fails_iff : (∃ e, readPayload x = .error e) ↔ Pairs.Lacks x [typeKey, sourceKey, idKey] := by
  cases h : Pairs.parse x with
  | error e => simp [readPayload, h, bind, Except.bind, Pairs.lacks_of_error h]
  | ok t =>
    rw [Pairs.lacks_iff_of_ok h]
    cases ht : t.find? typeKey <;> cases hs : t.find? sourceKey <;> cases hi : t.find? idKey <;>
      simp [readPayload, require, h, ht, hs, hi, bind, Except.bind, pure, Except.pure]

end Wire

open Pairs Wire

/-- The text is an envelope of the tag around a payload of the identity. -/
def Tells (x tag : String) (i : Identity) : Prop :=
  ∃ payload, Says x kindKey tag ∧ Says x payloadKey payload ∧
    Says payload typeKey i.type ∧ Says payload sourceKey i.source ∧ Says payload idKey i.id

/-- The text is no envelope, or one around something that is no payload. -/
def Untold (x : String) : Prop :=
  Lacks x [kindKey, payloadKey] ∨ ∃ payload, Says x payloadKey payload ∧ Lacks payload [typeKey, sourceKey, idKey]

namespace Codec

/-- Whatever the identity, the codec makes a token with its tag and with the id, and makes it again of the token's identity. -/
def Settles (c : Codec) : Prop :=
  ∀ i, ∃ t, c.build i = .ok t ∧ t.kind.tag = c.tag ∧ t.identity.id = i.id ∧ c.build t.identity = .ok t

theorem settles_element : Codec.element.Settles := fun _ => ⟨_, rfl, rfl, rfl, rfl⟩

theorem settles_virtualElement : Codec.virtualElement.Settles := fun _ => ⟨_, rfl, rfl, rfl, rfl⟩

theorem settles_logElement : Codec.logElement.Settles := fun _ => ⟨_, rfl, rfl, rfl, rfl⟩

theorem settles_triple (tag : String) : (Codec.triple tag).Settles := fun _ => ⟨_, rfl, rfl, rfl, rfl⟩

end Codec

namespace Registry

variable {r₀ r : Registry} {c d : Codec} {tag x : String} {tags : List String} {i : Identity} {t : Token}

/-! ## Texts that tell a token -/

/-- Of a text that tells something, the registry makes what the codec of the tag makes of the identity. -/
theorem deserialize_of_tells (r : Registry) (h : Tells x tag i) : r.deserialize x = r.build tag i := by
  obtain ⟨payload, htag, hpayload, hidentity⟩ := h
  rw [deserialize, readEnvelope_eq_ok_iff.2 ⟨htag, hpayload⟩]
  show ((readPayload payload).mapError .malformed >>= r.build tag) = r.build tag i
  rw [readPayload_eq_ok_iff.2 hidentity]
  rfl

/-- A text that tells nothing is malformed. -/
theorem deserialize_of_untold (r : Registry) (h : Untold x) : ∃ e, r.deserialize x = .error (.malformed e) := by
  cases henvelope : readEnvelope x with
  | error e => exact ⟨e, by rw [deserialize, henvelope]; rfl⟩
  | ok read =>
    obtain ⟨tag, payload⟩ := read
    have hsays := (readEnvelope_eq_ok_iff.1 henvelope).2
    rcases h with hlacks | ⟨payload', hsays', hlacks⟩
    · obtain ⟨e, he⟩ := readEnvelope_fails_iff.2 hlacks
      rw [henvelope] at he
      cases he
    · obtain rfl := hsays.unique hsays'
      obtain ⟨e, he⟩ := readPayload_fails_iff.2 hlacks
      refine ⟨e, ?_⟩
      rw [deserialize, henvelope]
      show ((readPayload payload).mapError .malformed >>= r.build tag) = .error (.malformed e)
      rw [he]
      rfl

/-- Every text tells something or nothing. -/
theorem tells_or_untold (x : String) : (∃ tag i, Tells x tag i) ∨ Untold x := by
  cases henvelope : readEnvelope x with
  | error e => exact .inr (.inl (readEnvelope_fails_iff.1 ⟨e, henvelope⟩))
  | ok read =>
    obtain ⟨tag, payload⟩ := read
    obtain ⟨htag, hsays⟩ := readEnvelope_eq_ok_iff.1 henvelope
    cases hpayload : readPayload payload with
    | error e => exact .inr (.inr ⟨payload, hsays, readPayload_fails_iff.1 ⟨e, hpayload⟩⟩)
    | ok i => exact .inl ⟨tag, i, payload, htag, hsays, readPayload_eq_ok_iff.1 hpayload⟩

/-! ## Registries that grow -/

/-- The registry after a codec was offered to it: it is registered, or refused and nothing changes. -/
def offer (r : Registry) (c : Codec) : Registry :=
  match r.register c with
  | .ok r' => r'
  | .error _ => r

/-- A tag that has a codec keeps it whatever codecs are offered. -/
theorem find?_foldl_offer (cs : List Codec) (hc : r.codecs.find? tag = some c) :
    (cs.foldl offer r).codecs.find? tag = some c := by
  induction cs generalizing r with
  | nil => exact hc
  | cons d cs ih =>
    refine ih ?_
    unfold offer
    split
    · next hr => exact find?_of_register_of_some hr hc
    · exact hc

/-- Every codec of a registry that only custom kinds were offered to stands at its own tag and settles what it makes. -/
theorem Grown.settles (h : Grown r₀ tags r) (h₀ : r₀ = builtin ∨ r₀ = empty) (hc : r.codecs.find? tag = some c) :
    c.tag = tag ∧ c.Settles := by
  induction h with
  | start =>
    rcases h₀ with rfl | rfl
    · obtain ⟨rfl, rfl | rfl | rfl⟩ := mem_of_find?_builtin hc
      · exact ⟨rfl, Codec.settles_element⟩
      · exact ⟨rfl, Codec.settles_virtualElement⟩
      · exact ⟨rfl, Codec.settles_logElement⟩
    · rw [empty, Table.find?_empty] at hc
      cases hc
  | taken _ hr ih =>
    obtain ⟨-, hfind⟩ := find?_of_register hr
    rw [hfind] at hc
    split at hc
    · next ht =>
      cases hc
      exact ⟨ht.symm, Codec.settles_triple _⟩
    · exact ih hc
  | refused _ _ ih => exact ih hc

/-- Of a text that tells a tag with a codec, a token with that tag and with the id is made, and the codec settles it. -/
theorem Grown.deserialize_of_codec (h : Grown r₀ tags r) (h₀ : r₀ = builtin ∨ r₀ = empty) (hx : Tells x tag i)
    (hc : r.codecs.find? tag = some c) :
    ∃ t, r.deserialize x = .ok t ∧ t.kind.tag = tag ∧ t.identity.id = i.id ∧ c.build t.identity = .ok t := by
  obtain ⟨rfl, hsettles⟩ := h.settles h₀ hc
  obtain ⟨t, hbuild, htag, hid, hagain⟩ := hsettles i
  refine ⟨t, ?_, htag, hid, hagain⟩
  rw [deserialize_of_tells r hx, build, hc]
  exact hbuild

/-- A text that tells a tag without a codec is of an unknown kind. -/
theorem deserialize_of_unknown (hx : Tells x tag i) (hc : r.contains tag = false) :
    r.deserialize x = .error (.unknownKind tag) := by
  have hnone : r.codecs.find? tag = none := by simpa [contains, Table.contains] using hc
  rw [deserialize_of_tells r hx, build, hnone]

/-- A registry reads a text in one of three ways. -/
theorem Grown.deserialize_cases (h : Grown r₀ tags r) (h₀ : r₀ = builtin ∨ r₀ = empty) (x : String) :
    (Untold x ∧ ∃ e, r.deserialize x = .error (.malformed e)) ∨
    (∃ tag i, Tells x tag i ∧ r.contains tag = false ∧ r.deserialize x = .error (.unknownKind tag)) ∨
    ∃ tag i c t, Tells x tag i ∧ r.codecs.find? tag = some c ∧ r.deserialize x = .ok t ∧ t.kind.tag = tag ∧
      t.identity.id = i.id ∧ c.build t.identity = .ok t := by
  rcases tells_or_untold x with ⟨tag, i, hx⟩ | hx
  · cases hc : r.codecs.find? tag with
    | none =>
      have hcontains : r.contains tag = false := by simp [contains, Table.contains, hc]
      exact .inr (.inl ⟨tag, i, hx, hcontains, deserialize_of_unknown hx hcontains⟩)
    | some c =>
      obtain ⟨t, ht, htag, hid, hagain⟩ := h.deserialize_of_codec h₀ hx hc
      exact .inr (.inr ⟨tag, i, c, t, hx, hc, ht, htag, hid, hagain⟩)
  · exact .inl ⟨hx, deserialize_of_untold r hx⟩

/-- A token whose codec makes it of the identity that a text tells is read of that text whatever codecs are offered. -/
theorem deserialize_foldl_offer (cs : List Codec) (hx : Tells x tag i) (hc : r.codecs.find? tag = some c) :
    (cs.foldl offer r).deserialize x = r.deserialize x := by
  rw [deserialize_of_tells _ hx, deserialize_of_tells _ hx, build, build, hc, find?_foldl_offer cs hc]

/-- What a registry reads is settled by what the text tells. A text that tells nothing is malformed, even if the tag is unknown too; a
text that tells a tag without a codec is of an unknown kind; and of every other text a token is read, with the tag and the id that the
text tells. The token is written and read back with its identity and its kind, and whatever codecs are offered to the registry, taken
or refused, the text is read as this token. -/
theorem deserialize_settled (h₀ : r₀ = builtin ∨ r₀ = empty) (h : Grown r₀ tags r) (x : String) :
    ((∃ e, r.deserialize x = .error (.malformed e)) ↔ Untold x) ∧
    (∀ tag, r.deserialize x = .error (.unknownKind tag) ↔ (∃ i, Tells x tag i) ∧ r.contains tag = false) ∧
    ((∀ e, r.deserialize x ≠ .error (.malformed e)) → (∀ tag, r.deserialize x ≠ .error (.unknownKind tag)) →
      ∃ t, r.deserialize x = .ok t) ∧
    (∀ t, r.deserialize x = .ok t →
      (∃ i, Tells x t.kind.tag i ∧ r.contains t.kind.tag = true ∧ t.identity.id = i.id) ∧
      (∃ y t', r.serialize t = .ok y ∧ r.deserialize y = .ok t' ∧ t'.identity = t.identity ∧ t'.kind = t.kind) ∧
      ∀ cs : List Codec, (cs.foldl offer r).deserialize x = .ok t) := by
  have hcases := h.deserialize_cases h₀ x
  refine ⟨⟨?_, deserialize_of_untold r⟩, fun tag => ⟨fun hread => ?_, fun ⟨⟨i, hx⟩, hc⟩ => deserialize_of_unknown hx hc⟩, ?_,
    fun t hread => ?_⟩
  · rintro ⟨e, hread⟩
    rcases hcases with ⟨hx, -⟩ | ⟨tag, i, -, -, hread'⟩ | ⟨tag, i, c, t, -, -, hread', -⟩
    · exact hx
    · cases hread.symm.trans hread'
    · cases hread.symm.trans hread'
  · rcases hcases with ⟨-, e, hread'⟩ | ⟨tag', i, hx, hc, hread'⟩ | ⟨tag', i, c, t, -, -, hread', -⟩
    · cases hread.symm.trans hread'
    · cases hread.symm.trans hread'
      exact ⟨⟨i, hx⟩, hc⟩
    · cases hread.symm.trans hread'
  · intro hmalformed hunknown
    rcases hcases with ⟨-, e, hread⟩ | ⟨tag, i, -, -, hread⟩ | ⟨tag, i, c, t, -, -, hread, -⟩
    · exact absurd hread (hmalformed e)
    · exact absurd hread (hunknown tag)
    · exact ⟨t, hread⟩
  · rcases hcases with ⟨-, e, hread'⟩ | ⟨tag, i, -, -, hread'⟩ | ⟨tag, i, c, t', hx, hc, hread', rfl, hid, hagain⟩
    · cases hread.symm.trans hread'
    · cases hread.symm.trans hread'
    · cases hread.symm.trans hread'
      have hcontains : r.contains t.kind.tag = true := by simp [contains, Table.contains, hc]
      obtain ⟨hwrite, hback⟩ := deserialize_serialize hc hagain
      exact ⟨⟨i, hx, hcontains, hid⟩, ⟨_, t, hwrite, hback, rfl, rfl⟩,
        fun cs => (deserialize_foldl_offer cs hx hc).trans hread⟩

/-- An element of the log viewer, told with a type and a source that its kind does not take, with a tag and an id that are told before
and do not count, and with a backslash that is not needed. -/
theorem deserialize_settled_log :
    let x := "_EntityTokenType_='media'_EntityToken_='_EntityToken_Type_=\\'page\\'_EntityToken_Id_=\\'6\\'" ++
      "_EntityToken_Source_=\\'s\\'_EntityToken_Id_=\\'7\\''_EntityTokenType_='log\\_element'"
    let r : Registry := ⟨builtin.codecs.set "media" (.triple "media")⟩
    Grown builtin ["media"] r ∧ r.deserialize x = .ok (Token.logElement "7") ∧
      (∃ y t', r.serialize (Token.logElement "7") = .ok y ∧ r.deserialize y = .ok t' ∧ t'.kind = .logElement) ∧
      ([Codec.named "page", .element].foldl offer r).deserialize x = .ok (Token.logElement "7") ∧
      Registry.empty.deserialize x = .error (.unknownKind "log_element") ∧
      ∃ e, r.deserialize "_EntityTokenType_='page'" = .error (.malformed e) := by
  intro x r
  have hr : Grown builtin ["media"] r := .taken .start rfl
  let inner : List Item :=
    [⟨typeKey.toList, "page".toList, by decide, by decide⟩, ⟨idKey.toList, "6".toList, by decide, by decide⟩,
      ⟨sourceKey.toList, "s".toList, by decide, by decide⟩, ⟨idKey.toList, "7".toList, by decide, by decide⟩]
  let outer : List Item :=
    [⟨kindKey.toList, "media".toList, by decide, by decide⟩,
      ⟨payloadKey.toList, escape (text inner), by decide, by decide +kernel⟩,
      ⟨kindKey.toList, "log\\_element".toList, by decide, by decide⟩]
  let tag : Item := ⟨kindKey.toList, "page".toList, by decide, by decide⟩
  have htext : x = String.ofList (text outer) := by decide +kernel
  have houter : x.toList = text outer := htext ▸ String.toList_ofList
  have hinner : (String.ofList (text inner)).toList = text inner := String.toList_ofList
  have hx : Tells x "log_element" ⟨"page", "s", "7"⟩ :=
    ⟨String.ofList (text inner), ⟨outer, houter, by decide +kernel⟩, ⟨outer, houter, by decide +kernel⟩,
      ⟨inner, hinner, by decide +kernel⟩, ⟨inner, hinner, by decide +kernel⟩, ⟨inner, hinner, by decide +kernel⟩⟩
  have hread : r.deserialize x = .ok (Token.logElement "7") := (deserialize_of_tells r hx).trans rfl
  obtain ⟨-, ⟨y, t', hwrite, hback, -, hkind⟩, hstable⟩ := (deserialize_settled (.inl rfl) hr x).2.2.2 _ hread
  have hlacks : Untold "_EntityTokenType_='page'" :=
    .inl (.inr ⟨[tag], by decide +kernel, payloadKey, by decide, by decide +kernel⟩)
  exact ⟨hr, hread, ⟨y, t', hwrite, hback, hkind⟩, hstable _,
    ((deserialize_settled (.inr rfl) .start x).2.1 _).2 ⟨⟨_, hx⟩, rfl⟩, (deserialize_settled (.inl rfl) hr _).1.2 hlacks⟩

end Registry
end Lineage.Token
