import Lineage.Token.Registry
import Lineage.Proofs.Token.Pairs

/-!
# Tokens survive being written

The payload is a run of three pairs and the envelope one of two, and the payload stands in the envelope as a value, so both are read
back whatever they hold. A registry answers for a tag with the first codec that was registered for it, so a token whose kind is built
in, or custom with a tag that the registry took, comes back as it was.
-/

namespace Lineage.Token

namespace Wire

/-! ## Payload and envelope -/

/-- An identity is read back from its payload. -/
theorem readPayload_payload (i : Identity) : readPayload (payload i) = .ok i := by
  have hrun : ("" : String).toList = Pairs.run [] := rfl
  have hparse := Pairs.parse_of_run (Pairs.toList_write (Pairs.toList_write (Pairs.toList_write hrun
    typeKey i.type) sourceKey i.source) idKey i.id) (by simp [typeKey, sourceKey, idKey])
  simp only [readPayload, payload, hparse, bind, Except.bind, require, Pairs.find?_table]
  -- the three keys are distinct, so each value is found behind its own
  simp [typeKey, sourceKey, idKey, pure, Except.pure]

/-- A tag and a payload are read back from their envelope. -/
theorem readEnvelope_envelope (tag payload : String) : readEnvelope (envelope tag payload) = .ok (tag, payload) := by
  have hrun : ("" : String).toList = Pairs.run [] := rfl
  have hparse := Pairs.parse_of_run (Pairs.toList_write (Pairs.toList_write hrun kindKey tag) payloadKey payload)
    (by simp [kindKey, payloadKey])
  simp only [readEnvelope, envelope, hparse, bind, Except.bind, require, Pairs.find?_table]
  simp [kindKey, payloadKey, pure, Except.pure]

/-- What two envelopes with one text hold is the same. -/
theorem envelope_inj {tag tag' payload payload' : String} (h : envelope tag payload = envelope tag' payload') :
    tag = tag' ∧ payload = payload' := by
  have hread := readEnvelope_envelope tag payload
  rw [h, readEnvelope_envelope tag' payload'] at hread
  cases hread
  exact ⟨rfl, rfl⟩

/-- What two payloads with one text name is the same. -/
theorem payload_inj {i j : Identity} (h : payload i = payload j) : i = j := by
  have hread := readPayload_payload i
  rw [h, readPayload_payload j] at hread
  cases hread
  rfl

end Wire

/-- The text of a token says its tag and its identity, and nothing else. -/
theorem serialize_eq_iff {t u : Token} : t.serialize = u.serialize ↔ t.kind.tag = u.kind.tag ∧ t.identity = u.identity := by
  constructor
  · intro h
    obtain ⟨htag, hpayload⟩ := Wire.envelope_inj h
    exact ⟨htag, Wire.payload_inj hpayload⟩
  · rintro ⟨htag, hidentity⟩
    rw [serialize, serialize, payload, payload, htag, hidentity]

/-! ## Registries that grow -/

namespace Registry

variable {r₀ r r' : Registry} {c d : Codec} {tag : String} {tags : List String}

/-- A codec is registered for a tag that had none, and the others stay as they are. -/
theorem find?_of_register (h : r.register c = .ok r') :
    r.codecs.find? c.tag = none ∧ ∀ tag, r'.codecs.find? tag = if tag = c.tag then some c else r.codecs.find? tag := by
  rw [register] at h
  split at h
  · cases h
  · next hc =>
    cases h
    refine ⟨?_, fun tag => Table.find?_set ..⟩
    rwa [contains, Table.contains, Bool.not_eq_true, Option.isSome_eq_false_iff, Option.isNone_iff_eq_none] at hc

/-- `r` is what came of `r₀` when custom kinds were offered to it one after the other, and `tags` are those that it took. -/
inductive Grown (r₀ : Registry) : List String → Registry → Prop where
  | start : Grown r₀ [] r₀
  | taken {tag : String} {tags : List String} {r r' : Registry} :
      Grown r₀ tags r → r.register (.triple tag) = .ok r' → Grown r₀ (tag :: tags) r'
  | refused {tag : String} {tags : List String} {r : Registry} {e : Error} :
      Grown r₀ tags r → r.register (.triple tag) = .error e → Grown r₀ tags r

/-- A tag that has a codec keeps it when another codec is registered. -/
theorem find?_of_register_of_some (h : r.register d = .ok r') (hc : r.codecs.find? tag = some c) :
    r'.codecs.find? tag = some c := by
  obtain ⟨hfree, hfind⟩ := find?_of_register h
  rw [hfind, if_neg, hc]
  intro htag
  rw [htag, hfree] at hc
  cases hc

/-- A registry that grows keeps its codecs. -/
theorem Grown.keeps (h : Grown r₀ tags r) (hc : r₀.codecs.find? tag = some c) : r.codecs.find? tag = some c := by
  induction h with
  | start => exact hc
  | taken _ hr ih => exact find?_of_register_of_some hr ih
  | refused _ _ ih => exact ih

/-- The codecs of the built-in registry are those of the built-in kinds, and each stands at the tag of its kind. -/
theorem mem_of_find?_builtin (hc : builtin.codecs.find? tag = some c) :
    tag = c.tag ∧ (c = .element ∨ c = .virtualElement ∨ c = .logElement) := by
  simp only [builtin, List.foldl_cons, List.foldl_nil, Table.find?_set, Table.find?_empty] at hc
  split at hc
  · next ht => cases hc; exact ⟨ht, .inr (.inr rfl)⟩
  · split at hc
    · next ht => cases hc; exact ⟨ht, .inr (.inl rfl)⟩
    · split at hc
      · next ht => cases hc; exact ⟨ht, .inl rfl⟩
      · cases hc

/-- A registry has the custom codec of every tag that it took. -/
theorem Grown.find?_of_mem (h : Grown r₀ tags r) (ht : tag ∈ tags) : r.codecs.find? tag = some (.triple tag) := by
  induction h with
  | start => cases ht
  | taken _ hr ih =>
    obtain ⟨hfree, hfind⟩ := find?_of_register hr
    rw [hfind]
    rcases List.mem_cons.1 ht with rfl | ht
    · exact if_pos rfl
    · rw [if_neg, ih ht]
      intro htag
      rw [← htag, ih ht] at hfree
      cases hfree
  | refused _ _ ih => exact ih ht

end Registry

/-- The tokens that are made by name: of the built-in kinds, and of custom kinds with one of some tags. -/
inductive Made (tags : List String) : Token → Prop where
  | element (type source id : String) : Made tags (Token.element type source id)
  | virtualElement (source id : String) : Made tags (Token.virtualElement source id)
  | logElement (id : String) : Made tags (Token.logElement id)
  | custom {tag : String} (h : tag ∈ tags) (type source id : String) : Made tags (Token.custom tag type source id)

namespace Registry

variable {r : Registry} {c : Codec} {t : Token} {tags : List String}

/-- A grown registry has a codec for the kind of every token that is made with its tags, and it makes that token of its identity. -/
theorem Grown.exists_codec (h : Grown builtin tags r) (ht : Made tags t) :
    ∃ c, r.codecs.find? t.kind.tag = some c ∧ c.build t.identity = .ok t := by
  cases ht with
  | element type source id => exact ⟨.element, h.keeps rfl, rfl⟩
  | virtualElement source id => exact ⟨.virtualElement, h.keeps rfl, rfl⟩
  | logElement id => exact ⟨.logElement, h.keeps rfl, rfl⟩
  | custom hmem type source id => exact ⟨.triple _, h.find?_of_mem hmem, rfl⟩

/-- Only tokens whose tag is registered are written, and they are written with their tag. -/
theorem serialize_eq_ok_iff {x : String} : r.serialize t = .ok x ↔ r.contains t.kind.tag = true ∧ x = t.serialize := by
  unfold serialize
  split
  · next hc => simp [hc, eq_comm]
  · next hc => simp [hc]

/-- What is read of a token's text is what the codec of its tag makes of its identity. -/
theorem deserialize_text (r : Registry) (t : Token) : r.deserialize t.serialize = r.build t.kind.tag t.identity := by
  have henvelope : Wire.readEnvelope t.serialize = .ok (t.kind.tag, t.payload) := Wire.readEnvelope_envelope _ _
  have hpayload : Wire.readPayload t.payload = .ok t.identity := Wire.readPayload_payload _
  rw [deserialize, henvelope]
  show (do
    let identity ← (Wire.readPayload t.payload).mapError .malformed
    r.build t.kind.tag identity : Except Error Token) = _
  rw [hpayload]
  rfl

/-- A token whose codec makes it of its identity is written, and read back as it was. -/
theorem deserialize_serialize (hc : r.codecs.find? t.kind.tag = some c) (hb : c.build t.identity = .ok t) :
    r.serialize t = .ok t.serialize ∧ r.deserialize t.serialize = .ok t := by
  constructor
  · have hcontains : r.contains t.kind.tag = true := by rw [contains, Table.contains, hc, Option.isSome_some]
    exact serialize_eq_ok_iff.2 ⟨hcontains, rfl⟩
  · have hbuild : r.build t.kind.tag t.identity = c.build t.identity := by rw [build, hc]
    exact (deserialize_text r t).trans (hbuild.trans hb)

end Registry

/-! ## Round trip -/

/-- Payloads and envelopes are read back whatever they hold. Every token that is made by name, of a built-in kind or of a custom kind
that the registry took at any time, is written by the registry and read back with the same identity and the same kind. So the text of a
token settles its tag and its identity. -/
theorem written_reads_back :
    (∀ i, Wire.readPayload (Wire.payload i) = .ok i) ∧
    (∀ tag payload, Wire.readEnvelope (Wire.envelope tag payload) = .ok (tag, payload)) ∧
    (∀ tags r, Registry.Grown .builtin tags r → ∀ t, Made tags t →
      ∃ t', r.serialize t = .ok t.serialize ∧ r.deserialize t.serialize = .ok t' ∧
        t'.identity = t.identity ∧ t'.kind = t.kind) ∧
    (∀ t u : Token, t.serialize = u.serialize ↔ t.kind.tag = u.kind.tag ∧ t.identity = u.identity) := by
  refine ⟨Wire.readPayload_payload, Wire.readEnvelope_envelope, fun tags r hr t ht => ?_, fun t u => serialize_eq_iff⟩
  obtain ⟨c, hc, hb⟩ := hr.exists_codec ht
  obtain ⟨hwrite, hread⟩ := Registry.deserialize_serialize hc hb
  exact ⟨t, hwrite, hread, rfl, rfl⟩

/-- A custom token that is full of quotes, backslashes and keys comes back from a registry that refused the tag of a built-in kind
and then took the tag of the token. -/
theorem written_reads_back_quoted :
    let t := Token.custom "media" "it's" "back\\slash" "_EntityToken_Id_='x'"
    let r : Registry := ⟨Registry.builtin.codecs.set "media" (.triple "media")⟩
    Registry.Grown .builtin ["media"] r ∧ Made ["media"] t ∧
      ∃ t', r.deserialize t.serialize = .ok t' ∧ t'.identity = t.identity ∧ t'.kind = t.kind := by
  intro t r
  have hrefused : Registry.builtin.register (.triple "element") = .error (.duplicateKind "element") := rfl
  have hr : Registry.Grown .builtin ["media"] r := .taken (.refused .start hrefused) rfl
  have ht : Made ["media"] t := .custom List.mem_cons_self _ _ _
  obtain ⟨t', -, hread, hidentity, hkind⟩ := written_reads_back.2.2.1 _ r hr t ht
  exact ⟨hr, ht, t', hread, hidentity, hkind⟩

end Lineage.Token
