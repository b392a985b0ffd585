import Lineage.Source.Basic
import Lineage.Table

/-!
# Hooks

Links that are laid over the structure at run time, such as a row that is shown below a page that does not own it. A child is hooked
below a parent at most once.
-/

namespace Lineage

/-- The parents that each child is hooked below, in the order of hooking. -/
structure Hooks where
  links : Table Identity (List Token)

namespace Hooks

/-- No hooks. -/
def empty : Hooks := ⟨Table.empty⟩

instance : Inhabited Hooks := ⟨empty⟩

/-- The parents that a token is hooked below. -/
def answer (h : Hooks) (t : Token) : Answer := h.links.find? t.identity

/-- Hooks a child below a parent; a hook that is there already is not laid again. -/
def add (h : Hooks) (child parent : Token) : Hooks :=
  let parents := (h.answer child).getD []
  ⟨h.links.set child.identity (if parents.any (·.same parent) then parents else parents ++ [parent])⟩

/-- Takes the hooks of a child away, and returns the parents that it was hooked below. -/
def remove (h : Hooks) (child : Token) : List Token × Hooks := ((h.answer child).getD [], ⟨h.links.erase child.identity⟩)

/-- The number of hooked children. -/
def size (h : Hooks) : Nat := h.links.size

/-- Whether no child is hooked. -/
def isEmpty (h : Hooks) : Bool := h.links.isEmpty

/-- A removed child has no hooks, and the others keep theirs. -/
theorem answer_remove (h : Hooks) (child t : Token) :
    (h.remove child).2.answer t = if t.same child then none else h.answer t := by
  simp only [answer, remove, Table.find?_erase, Token.same, decide_eq_true_eq]

end Hooks
end Lineage
