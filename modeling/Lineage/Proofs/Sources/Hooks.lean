import Lineage.Source.Hooks
import Lineage.Proofs.Token.Distinct
import Mathlib.Data.List.DropRight

/-!
# What hooks remember

Hooks are laid and taken away again and again. What a token is hooked below can be told from the calls alone: of the parents that tokens
of its identity were hooked below since their hooks were taken away last, every object once and in the order in which they came. A token
without such a parent has no answer and no entry, so that the entries count the tokens that are hooked.
-/

namespace Lineage

/-- The answer of a source that has an opinion only if it knows a parent. -/
def Answer.naming (ts : List Token) : Answer := if ts = [] then none else some ts

theorem Answer.naming_of_ne_nil {ts : List Token} (h : ts ≠ []) : naming ts = some ts := if_neg h

@[simp] theorem Answer.getD_naming (ts : List Token) : (naming ts).getD [] = ts := by
  cases ts <;> rfl

namespace Hooks

/-- What can be done to hooks. -/
inductive Call where
  | add (child parent : Token)
  | remove (child : Token)
  | clear
  deriving DecidableEq, Repr

namespace Call

/-- A call, carried out. -/
def run : Call → Hooks → Hooks
  | .add child parent, h => h.add child parent
  | .remove child, h => (h.remove child).2
  | .clear, _ => Hooks.empty

/-- Whether a call takes away the hooks of a token. -/
def clears (t : Token) : Call → Bool
  | .add .. => false
  | .remove child => child.same t
  | .clear => true

/-- The parent that a call hooks a token below, if it does. -/
def parent? (t : Token) : Call → Option Token
  | .add child parent => if child.same t then some parent else none
  | .remove _ | .clear => none

end Call

/-- The hooks after some calls. -/
def after (calls : List Call) : Hooks := calls.foldl (fun h call => call.run h) empty

/-- The parents that a token was hooked below since its hooks were taken away last: the first token for each object, in order. -/
def live (t : Token) (calls : List Call) : List Token :=
  Token.distinct ((calls.rtakeWhile (!·.clears t)).filterMap (·.parent? t))

variable {t : Token} {call : Call} {calls : List Call}

/-! ## One more call -/

theorem after_append (calls : List Call) (call : Call) : after (calls ++ [call]) = call.run (after calls) := by
  rw [after, List.foldl_append, ← after, List.foldl_cons, List.foldl_nil]

theorem live_append_of_clears (h : call.clears t = true) : live t (calls ++ [call]) = [] := by
  rw [live, List.rtakeWhile_concat_neg _ _ _ (by simp [h])]
  rfl

/-- A call that takes no hooks of a token away adds the parent that it hooks the token below, if any. -/
theorem live_append (h : call.clears t = false) :
    live t (calls ++ [call]) = Token.addNew (live t calls) (call.parent? t).toList := by
  have hnew : [call].filterMap (·.parent? t) = (call.parent? t).toList := by
    cases hp : call.parent? t <;> simp [hp]
  rw [live, List.rtakeWhile_concat_pos _ _ _ (by simp [h]), List.filterMap_append, hnew, Token.distinct_eq_addNew,
    Token.addNew_append, live, Token.distinct_eq_addNew]

/-- Hooking a child below a parent makes the parent one of those that the child has, and leaves other tokens alone. -/
theorem answer_add (h : Hooks) (child parent t : Token) :
    (h.add child parent).answer t =
      if t.same child then some (Token.addNew ((h.answer t).getD []) [parent]) else h.answer t := by
  simp only [answer, add, Table.find?_set, Token.same, decide_eq_true_eq]
  split
  · next heq =>
    rw [heq]
    rfl
  · rfl

theorem addNew_singleton_ne_nil (ts : List Token) (p : Token) : Token.addNew ts [p] ≠ [] := by
  by_cases hp : ∃ s ∈ ts, s.identity = p.identity
  · rw [Token.addNew_cons_of_mem hp]
    obtain ⟨s, hs, -⟩ := hp
    exact List.ne_nil_of_mem hs
  · rw [Token.addNew_cons_of_not_mem hp]
    exact List.append_ne_nil_of_right_ne_nil _ (List.cons_ne_nil p [])

/-- What a call leaves is what the history with that call says, if the hooks before were as their history says. -/
theorem answer_run {h : Hooks} (hh : h.answer t = .naming (live t calls)) (call : Call) :
    (call.run h).answer t = .naming (live t (calls ++ [call])) := by
  cases call with
  | add child parent =>
    rw [live_append rfl, Call.run, answer_add, hh, Answer.getD_naming, Token.same_comm t child, Call.parent?]
    split
    · exact (Answer.naming_of_ne_nil (addNew_singleton_ne_nil _ _)).symm
    · rfl
  | remove child =>
    rw [Call.run, answer_remove, hh, Token.same_comm t child, ← show (Call.remove child).clears t = child.same t from rfl]
    cases hs : (Call.remove child).clears t with
    | true =>
      rw [live_append_of_clears hs]
      rfl
    | false =>
      rw [live_append hs]
      rfl
  | clear =>
    rw [live_append_of_clears rfl]
    rfl

/-- After any calls every token is hooked below the parents that the calls tell. -/
theorem answer_after (calls : List Call) (t : Token) : (after calls).answer t = .naming (live t calls) := by
  induction calls using List.reverseRecOn with
  | nil => rfl
  | append_singleton calls call ih =>
    rw [after_append]
    exact answer_run ih call

/-! ## The entries -/

/-- The entries are those of the tokens that are hooked. -/
theorem mem_keys_after_iff (calls : List Call) (t : Token) : t.identity ∈ (after calls).links.keys ↔ live t calls ≠ [] := by
  rw [← Decidable.not_iff_not, not_not, ← Table.find?_eq_none_iff]
  have hanswer := answer_after calls t
  rw [answer] at hanswer
  rw [hanswer]
  cases live t calls <;> simp [Answer.naming]

/-- What hooks remember of any calls. A token is hooked below the parents that tokens of its identity were hooked below since their
hooks were taken away last, one token for each object and in the order in which the objects came; if there is none there is no
opinion. To take the hooks of a token away returns these parents, and leaves those of all other tokens as they are. The hooks count the
tokens that are hooked, and they are empty if none is. -/
theorem after_remembers (calls : List Call) :
    let h := after calls
    (∀ t, h.answer t = if live t calls = [] then none else some (live t calls)) ∧
    (∀ child, (h.remove child).1 = live child calls ∧
      ∀ t, (h.remove child).2.answer t = if t.same child then none else h.answer t) ∧
    (∃ hooked : List Identity, hooked.Nodup ∧ (∀ t, t.identity ∈ hooked ↔ live t calls ≠ []) ∧ h.size = hooked.length) ∧
    (h.isEmpty = true ↔ ∀ t, live t calls = []) := by
  intro h
  have hkeys := mem_keys_after_iff calls
  refine ⟨answer_after calls, fun child => ⟨?_, answer_remove h child⟩, ⟨h.links.keys, h.links.nodup, hkeys, ?_⟩, ?_⟩
  · rw [remove, answer_after, Answer.getD_naming]
  · rw [size, Table.size, Table.keys, List.length_map]
  · rw [isEmpty, Table.isEmpty, List.isEmpty_iff, ← List.map_eq_nil_iff (f := Prod.fst)]
    show h.links.keys = [] ↔ _
    constructor
    · intro hnil t
      have hnot := hkeys t
      rw [show (after calls).links.keys = [] from hnil] at hnot
      exact not_not.1 fun hlive => List.not_mem_nil (hnot.2 hlive)
    · intro hlive
      refine List.eq_nil_iff_forall_not_mem.2 fun x hx => ?_
      exact (hkeys ⟨.element, x⟩).1 hx (hlive _)

/-- A row is hooked below two pages, its hooks are taken away under another kind, and the second page comes back: first, and alone. -/
example :
    let row := Token.element "row" "news" "1"
    let home := Token.element "page" "pages" "home"
    let about := Token.element "page" "pages" "about"
    let calls : List Call := [.add row home, .add row about, .remove (.custom "media" "row" "news" "1"), .add row about, .add row home,
      .add row about]
    live row calls = [about, home] := by decide

end Hooks
end Lineage
