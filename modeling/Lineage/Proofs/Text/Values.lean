import Mathlib.Algebra.Group.Nat.Defs
import Mathlib.Data.List.DropRight
import Lineage.Text.Blank
import Lineage.Text.Number

/-!
# Texts that write values

A value from outside is a text. The blanks around it do not count, and what they surround writes a truth value, a 64-bit word, or
nothing at all. `Trims s t` says that `t` is what blanks surround in `s`, `WritesBool` and `WritesWord` say which texts write which
values. None of them mentions the functions that trim and read; these are shown to give exactly what they say.
-/

namespace Lineage.Text

/-! ## Blanks at the ends -/

/-- No blank stands at either end of a list of characters. -/
structure Bare (cs : List Char) : Prop where
  head : ∀ c ∈ cs.head?, isBlank c = false
  last : ∀ c ∈ cs.getLast?, isBlank c = false

/-- One text is another one with blanks before it and behind it, and this one has no blank at either end. -/
def Trims (s t : String) : Prop :=
  Bare t.toList ∧ ∃ before behind : List Char, s.toList = before ++ t.toList ++ behind ∧
    (∀ c ∈ before, isBlank c = true) ∧ ∀ c ∈ behind, isBlank c = true

theorem trimmed_eq (cs : List Char) : trimmed cs = (cs.dropWhile isBlank).rdropWhile isBlank := rfl

/-- Trimming drops blanks only. -/
theorem exists_eq_append_trimmed (cs : List Char) : ∃ before behind, cs = before ++ trimmed cs ++ behind ∧
    (∀ c ∈ before, isBlank c = true) ∧ ∀ c ∈ behind, isBlank c = true := by
  refine ⟨cs.takeWhile isBlank, (cs.dropWhile isBlank).rtakeWhile isBlank, ?_, fun c => List.mem_takeWhile_imp,
    fun c => List.mem_rtakeWhile_imp⟩
  rw [trimmed_eq, List.append_assoc, List.rdropWhile_append_rtakeWhile, List.takeWhile_append_dropWhile]

/-- Trimming leaves no blank at the ends. -/
theorem bare_trimmed (cs : List Char) : Bare (trimmed cs) := by
  constructor
  · intro c hc
    obtain ⟨rest, hrest⟩ := List.rdropWhile_prefix isBlank (l := cs.dropWhile isBlank)
    have hhead : (cs.dropWhile isBlank).head? = some c := by
      rw [← hrest, List.head?_append, ← trimmed_eq, Option.mem_def.1 hc, Option.some_or]
    have hnot := List.head?_dropWhile_not isBlank cs
    rw [hhead] at hnot
    exact hnot
  · intro c hc
    obtain ⟨hne, rfl⟩ := List.mem_getLast?_eq_getLast hc
    exact Bool.eq_false_iff.2 (List.rdropWhile_last_not isBlank _ hne)

/-- What blanks surround is left when they are dropped. -/
theorem trimmed_append {before cs behind : List Char} (h : Bare cs) (hbefore : ∀ c ∈ before, isBlank c = true)
    (hbehind : ∀ c ∈ behind, isBlank c = true) : trimmed (before ++ cs ++ behind) = cs := by
  rw [trimmed_eq, List.append_assoc, List.dropWhile_append_of_pos hbefore]
  cases cs with
  | nil => rw [List.nil_append, List.dropWhile_eq_nil_iff.2 hbehind, List.rdropWhile_nil]
  | cons c cs =>
    -- neither pass goes beyond an end of `c :: cs`, since no blank stands there
    rw [List.cons_append, List.dropWhile_cons_of_neg (Bool.eq_false_iff.1 (h.head c rfl)), ← List.cons_append, List.rdropWhile,
      List.reverse_append, List.dropWhile_append_of_pos fun d hd => hbehind d (List.mem_reverse.1 hd)]
    refine List.rdropWhile_eq_self_iff.2 fun hne => Bool.eq_false_iff.1 (h.last _ ?_)
    exact List.getLast?_eq_some_getLast hne

/-- A text is trimmed to what blanks surround in it. -/
theorem trim_eq_iff {s t : String} : trim s = t ↔ Trims s t := by
  constructor
  · rintro rfl
    simpa only [Trims, trim, String.toList_ofList] using And.intro (bare_trimmed s.toList) (exists_eq_append_trimmed s.toList)
  · rintro ⟨hbare, before, behind, hs, hbefore, hbehind⟩
    rw [trim, hs, trimmed_append hbare hbefore hbehind, String.ofList_toList]

instance (s t : String) : Decidable (Trims s t) := decidable_of_iff _ trim_eq_iff

example : Trims "\u2003 7 7\t" "7 7" ∧ ¬ Trims "\u200B7" "7" := by decide

/-! ## Truth values -/

/-- The texts of the truth values. -/
inductive WritesBool : String → Bool → Prop where
  | true : WritesBool "true" true
  | false : WritesBool "false" false

theorem bool?_eq_some_iff {s : String} {b : Bool} : bool? s = some b ↔ WritesBool s b := by
  constructor
  · intro h
    rw [bool?] at h
    split_ifs at h with htrue hfalse
    · cases h
      exact htrue ▸ .true
    · cases h
      exact hfalse ▸ .false
  · rintro (_ | _) <;> rfl

/-! ## Words -/

/-- A number is written in base ten by digits of ASCII, of which there is at least one. -/
structure WritesNumber (digits : List Char) (n : Nat) : Prop where
  ne_nil : digits ≠ []
  isDigit : ∀ c ∈ digits, c.isDigit = true
  value : Nat.ofDigitChars 10 digits 0 = n

/-- A 64-bit word is written by its digits, with a plus sign before them or without. -/
def WritesWord (s : String) (n : Nat) : Prop :=
  n < 2 ^ 64 ∧ ∃ digits, WritesNumber digits n ∧ (s.toList = digits ∨ s.toList = '+' :: digits)

theorem digit?_eq_some_iff {c : Char} {d : Nat} : digit? c = some d ↔ c.isDigit = true ∧ c.toNat - '0'.toNat = d := by
  have hdigit : c.isDigit = true ↔ '0' ≤ c ∧ c ≤ '9' := by
    simp only [Char.isDigit, Bool.and_eq_true, decide_eq_true_eq, ge_iff_le, Char.le_def]
  rw [hdigit, digit?, Option.ite_none_right_eq_some, Option.some.injEq]

/-- Digits are read one after the other, and anything else stops the reading. -/
theorem digitsFrom_eq_some_iff {cs : List Char} {n m : Nat} :
    digitsFrom 10 digit? n cs = some m ↔ (∀ c ∈ cs, c.isDigit = true) ∧ Nat.ofDigitChars 10 cs n = m := by
  induction cs generalizing n with
  | nil => simp [digitsFrom]
  | cons c cs ih =>
    rw [digitsFrom, Option.bind_eq_some_iff, List.forall_mem_cons, Nat.ofDigitChars_cons]
    constructor
    · rintro ⟨d, hd, hcs⟩
      obtain ⟨hc, rfl⟩ := digit?_eq_some_iff.1 hd
      obtain ⟨hall, hm⟩ := ih.1 hcs
      exact ⟨⟨hc, hall⟩, hm⟩
    · rintro ⟨⟨hc, hall⟩, hm⟩
      exact ⟨_, digit?_eq_some_iff.2 ⟨hc, rfl⟩, ih.2 ⟨hall, hm⟩⟩

theorem decimal?_eq_some_iff {cs : List Char} {n : Nat} : decimal? cs = some n ↔ WritesNumber cs n := by
  cases cs with
  | nil => exact ⟨nofun, fun h => absurd rfl h.ne_nil⟩
  | cons c cs =>
    rw [decimal?, digitsFrom_eq_some_iff]
    · exact ⟨fun h => ⟨List.cons_ne_nil c cs, h.1, h.2⟩, fun h => ⟨h.isDigit, h.value⟩⟩
    · exact List.cons_ne_nil c cs

/-- A plus sign is not a digit, so it can only be the sign of a word. -/
theorem unsigned_eq_iff {cs digits : List Char} {n : Nat} (h : WritesNumber digits n) :
    unsigned cs = digits ↔ cs = digits ∨ cs = '+' :: digits := by
  have hplus : ∀ rest, digits ≠ '+' :: rest := fun rest hr => absurd (h.isDigit '+' (hr ▸ List.mem_cons_self)) nofun
  unfold unsigned
  split
  case h_1 cs =>
    exact ⟨fun hcs => .inr (congrArg _ hcs), fun hcs => hcs.elim (fun hcs => absurd hcs.symm (hplus cs)) (List.cons.inj · |>.2)⟩
  case h_2 hnot => exact ⟨.inl, fun hcs => hcs.elim id fun hcs => absurd hcs (hnot digits)⟩

theorem word?_eq_some_iff {s : String} {n : Nat} : word? s = some n ↔ WritesWord s n := by
  have hlimit : wordLimit = 2 ^ 64 := rfl
  rw [word?, Option.filter_eq_some_iff, decimal?_eq_some_iff, decide_eq_true_eq, hlimit]
  constructor
  · rintro ⟨hn, hlt⟩
    exact ⟨hlt, _, hn, (unsigned_eq_iff hn).1 rfl⟩
  · rintro ⟨hlt, digits, hn, hs⟩
    rw [(unsigned_eq_iff hn).2 hs]
    exact ⟨hn, hlt⟩

instance (s : String) (n : Nat) : Decidable (WritesWord s n) := decidable_of_iff _ word?_eq_some_iff

example : WritesWord "+007" 7 ∧ ¬ WritesWord "-0" 0 ∧ ¬ WritesWord "18446744073709551616" 18446744073709551616 := by decide

end Lineage.Text
