import Lineage.Error

/-!
# Sources of parents

A source is asked about a token and answers with its parents, or has no opinion, or fails with a text of its own. Nothing is assumed
of a source: it may keep a state, so its answers may change from one question to the next.
-/

namespace Lineage

/-- What a source says about a token: its parents in order, or nothing at all. An empty list is an opinion. -/
abbrev Answer := Option (List Token)

/-- An answer, or the text of a failure. -/
abbrev Reply := Except String Answer

/-- Two answers as one: the parents of the first and then those of the second. An answer without an opinion adds nothing. -/
def Answer.merge : Answer → Answer → Answer
  | none, b => b
  | some a, none => some a
  | some a, some b => some (a ++ b)

namespace Answer

@[simp] theorem none_merge (a : Answer) : merge none a = a := rfl

@[simp] theorem merge_none (a : Answer) : merge a none = a := by cases a <;> rfl

/-- The parents of a merged answer are those of the first answer and then those of the second. -/
theorem getD_merge (a b : Answer) : (merge a b).getD [] = a.getD [] ++ b.getD [] := by
  cases a <;> cases b <;> simp [merge]

theorem merge_assoc (a b c : Answer) : merge (merge a b) c = merge a (merge b c) := by
  cases a <;> cases b <;> cases c <;> simp [merge]

end Answer

/-- The three sources that a graph is built against, as one state that is asked. -/
class Sources (σ : Type) where
  /-- the reply to a question, and the state it leaves -/
  ask : Category → Token → σ → Reply × σ

end Lineage
