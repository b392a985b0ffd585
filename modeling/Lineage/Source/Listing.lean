import Lineage.Source.Basic
import Lineage.Table

/-!
# Listed parents

A fixed table from children to parents. A child that is not in the table has no listed answer; one that is listed with an empty list
has an empty one.
-/

namespace Lineage

/-- The parents of each listed child, in order and with repetitions. -/
structure Listing where
  parents : Table Identity (List Token)

namespace Listing

/-- The listing without children. -/
def empty : Listing := ⟨Table.empty⟩

instance : Inhabited Listing := ⟨empty⟩

/-- What the listing says about a token. -/
def answer (l : Listing) (t : Token) : Answer := l.parents.find? t.identity

/-- One more parent for a child. -/
def add (l : Listing) (child parent : Token) : Listing :=
  ⟨l.parents.set child.identity ((l.answer child).getD [] ++ [parent])⟩

/-- The parents of a child, in place of those it had. -/
def put (l : Listing) (child : Token) (parents : List Token) : Listing := ⟨l.parents.set child.identity parents⟩

/-- The number of children. -/
def size (l : Listing) : Nat := l.parents.size

/-- Whether there is no child. -/
def isEmpty (l : Listing) : Bool := l.parents.isEmpty

/-- A new parent comes after the others of its child, and other children are left alone. -/
theorem answer_add (l : Listing) (child parent t : Token) :
    (l.add child parent).answer t =
      if t.same child then some ((l.answer child).getD [] ++ [parent]) else l.answer t := by
  simp only [answer, add, Table.find?_set, Token.same, decide_eq_true_eq]

end Listing
end Lineage
