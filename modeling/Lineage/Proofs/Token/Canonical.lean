import Lineage.Proofs.Token.RoundTrip

/-!
# What a registry reads of what it wrote

Writing looks at the tag of a kind and at nothing else, so a token of a custom kind is also written when its tag is that of a built-in
kind. Its text is then one of the built-in kind, and it is read back as the token that this kind makes of the identity. So everything
that is written can be read, but what is read names the same object only if the identity has the shape that the built-in kind requires.
-/

namespace Lineage

namespace Kind

/-- The kind that a tag stands for in a text: a built-in one if it is the tag of one. -/
def ofTag (tag : String) : Kind :=
  if tag = Kind.element.tag then .element
  else if tag = Kind.virtualElement.tag then .virtualElement
  else if tag = Kind.logElement.tag then .logElement
  else .custom tag

/-- The token that a kind makes of an identity: only what the kind leaves open is taken over. -/
def make : Kind → Identity → Token
  | .element, i => ⟨.element, i⟩
  | .virtualElement, i => Token.virtualElement i.source i.id
  | .logElement, i => Token.logElement i.id
  | .custom tag, i => ⟨.custom tag, i⟩

variable (k : Kind) (i : Identity)

@[simp] theorem kind_make : (k.make i).kind = k := by cases k <;> rfl

theorem valid_make : (k.make i).valid = true := by cases k <;> simp [make, Token.valid, Token.virtualElement, Token.logElement]

theorem id_make : (k.make i).identity.id = i.id := by cases k <;> rfl

/-- The identity is taken over as it is exactly if it has the shape that the kind requires. -/
theorem identity_make_iff : (k.make i).identity = i ↔ (⟨k, i⟩ : Token).valid = true := by
  obtain ⟨type, source, id⟩ := i
  cases k with
  | element | custom tag => simp [make, Token.valid]
  | virtualElement => simp [make, Token.valid, Token.virtualElement, @eq_comm _ type]
  | logElement => simp [make, Token.valid, Token.logElement]

/-- A tag that no built-in kind has stands for the custom kind. -/
theorem ofTag_eq_custom {tag : String} (he : tag ≠ Kind.element.tag) (hv : tag ≠ Kind.virtualElement.tag)
    (hl : tag ≠ Kind.logElement.tag) : ofTag tag = .custom tag := by
  rw [ofTag, if_neg he, if_neg hv, if_neg hl]

/-- A kind and the kind that its tag stands for require different shapes of an identity only if the kind is custom and has the tag of
the virtual elements or of the elements of the log viewer. -/
theorem valid_ofTag_iff (h : (⟨k, i⟩ : Token).valid = true) :
    (⟨ofTag k.tag, i⟩ : Token).valid = false ↔
      (k = .custom Kind.virtualElement.tag ∧ i.type ≠ virtualElementType) ∨
        (k = .custom Kind.logElement.tag ∧ ¬(i.type = "" ∧ i.source = "")) := by
  cases k with
  | element | virtualElement | logElement => simpa [ofTag, Kind.tag] using h
  | custom tag =>
    by_cases he : tag = Kind.element.tag
    · subst he
      simp [ofTag, Kind.tag, Token.valid]
    · by_cases hv : tag = Kind.virtualElement.tag
      · subst hv
        simp [ofTag, Kind.tag, Token.valid]
      · by_cases hl : tag = Kind.logElement.tag
        · subst hl
          simp [ofTag, Kind.tag, Token.valid]
        · rw [show (Kind.custom tag).tag = tag from rfl, ofTag_eq_custom he hv hl]
          simp [Token.valid, hv, hl]

end Kind

namespace Token

namespace Registry

variable {r : Registry} {c : Codec} {tag : String} {tags : List String}

/-- The codec that a grown registry has for a tag makes tokens of the kind that the tag stands for. -/
theorem Grown.build_eq (h : Grown builtin tags r) (hc : r.codecs.find? tag = some c) (i : Identity) :
    c.build i = .ok ((Kind.ofTag tag).make i) := by
  induction h generalizing tag c with
  | start =>
    obtain ⟨rfl, rfl | rfl | rfl⟩ := mem_of_find?_builtin hc
    all_goals rfl
  | @taken new tags r r' hgrown hr ih =>
    obtain ⟨hfree, hfind⟩ := find?_of_register hr
    rw [hfind] at hc
    split at hc
    · next ht =>
      -- the tags of the built-in kinds are not free
      have hne : ∀ (tag' : String) (c' : Codec), builtin.codecs.find? tag' = some c' → tag ≠ tag' := by
        rintro tag' c' hbuiltin rfl
        rw [← ht, hgrown.keeps hbuiltin] at hfree
        cases hfree
      have hcustom : Kind.ofTag tag = .custom tag :=
        Kind.ofTag_eq_custom (hne _ .element rfl) (hne _ .virtualElement rfl) (hne _ .logElement rfl)
      cases hc
      rw [hcustom, show tag = new from ht]
      rfl
    · exact ih hc
  | refused _ _ ih => exact ih hc

/-- What a grown registry wrote it reads back as the token that the kind behind the tag makes of the identity. -/
theorem Grown.deserialize_eq (h : Grown builtin tags r) {t : Token} {x : String} (hx : r.serialize t = .ok x) :
    r.deserialize x = .ok ((Kind.ofTag t.kind.tag).make t.identity) := by
  obtain ⟨hcontains, rfl⟩ := serialize_eq_ok_iff.1 hx
  obtain ⟨c, hc⟩ := Option.isSome_iff_exists.1 hcontains
  rw [deserialize_text, build, hc]
  exact h.build_eq hc t.identity

end Registry

variable {tags : List String} {r : Registry} {t : Token} {x : String}

/-- Everything that a registry writes it can read. What it reads is a valid token of the kind that the tag stands for, with the id that
was written, and it names the object that was written exactly if the identity has the shape which that kind requires. Of the valid
tokens those fail that are of a custom kind with the tag of the virtual elements and another type than theirs, or with the tag of the
elements of the log viewer and a type or a source. -/
theorem same_as_written_iff (hr : Registry.Grown .builtin tags r) (hx : r.serialize t = .ok x) :
    ∃ t', r.deserialize x = .ok t' ∧ t'.kind = Kind.ofTag t.kind.tag ∧ t'.valid = true ∧ t'.identity.id = t.identity.id ∧
      (t'.same t = true ↔ Token.valid ⟨Kind.ofTag t.kind.tag, t.identity⟩ = true) ∧
      (t.valid = true → (t'.same t = false ↔
        (t.kind = .custom Kind.virtualElement.tag ∧ t.identity.type ≠ virtualElementType) ∨
          (t.kind = .custom Kind.logElement.tag ∧ ¬(t.identity.type = "" ∧ t.identity.source = "")))) := by
  have hsame : ((Kind.ofTag t.kind.tag).make t.identity).same t = true ↔
      Token.valid ⟨Kind.ofTag t.kind.tag, t.identity⟩ = true := same_iff.trans (Kind.identity_make_iff _ _)
  refine ⟨_, hr.deserialize_eq hx, Kind.kind_make _ _, Kind.valid_make _ _, Kind.id_make _ _, hsame, fun hvalid => ?_⟩
  rw [← Kind.valid_ofTag_iff t.kind t.identity hvalid, Bool.eq_false_iff, Bool.eq_false_iff]
  exact not_congr hsame

/-- A custom token with the tag of the log viewer's elements, and with neither type nor source, comes back as one of those elements,
also from a registry that took a custom kind. -/
theorem same_as_written_iff_log :
    let t := Token.custom "log_element" "" "" "7"
    let r : Registry := ⟨Registry.builtin.codecs.set "media" (.triple "media")⟩
    Registry.Grown .builtin ["media"] r ∧ r.serialize t = .ok t.serialize ∧
      ∃ t', r.deserialize t.serialize = .ok t' ∧ t'.kind = .logElement ∧ t'.same t = true := by
  intro t r
  have hr : Registry.Grown .builtin ["media"] r := .taken .start rfl
  have hx : r.serialize t = .ok t.serialize := rfl
  obtain ⟨t', hread, hkind, -, -, hsame, -⟩ := same_as_written_iff hr hx
  exact ⟨hr, hx, t', hread, hkind, hsame.2 rfl⟩

/-- A page of a custom kind with the tag of the virtual elements is a valid token, and it is written, but what is read names another
object. -/
theorem not_same_as_written :
    let t := Token.custom "virtual_element" "page" "site" "1"
    t.valid = true ∧ Registry.builtin.serialize t = .ok t.serialize ∧
      ∃ t', Registry.builtin.deserialize t.serialize = .ok t' ∧ t'.same t = false := by
  intro t
  have hread : Registry.builtin.deserialize t.serialize = .ok (Token.virtualElement "site" "1") :=
    (Registry.deserialize_text _ t).trans rfl
  exact ⟨rfl, rfl, _, hread, rfl⟩

end Token
end Lineage
