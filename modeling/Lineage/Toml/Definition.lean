import Lineage.Toml.Value

/-!
# Defining tables

A key is given its value once, and a table is opened by a header once. A header may open a table that was only implied by the headers
of tables inside it. A dotted key may add to tables that dotted keys made, and to those only. What stands between brackets or braces
is complete.
-/

namespace Lineage.Toml.Members

/-- Changes the table at the end of a path from a table of a given origin. Tables that are missing on the way are made with the
origin `made`, and a dotted path passes through no table that has a header. -/
def update (made : Origin) (change : Origin → Members → Option Members) : List String → Origin → Members → Option Members
  | [], origin, ms => change origin ms
  | key :: path, _, ms =>
    match ms.value? key with
    | none => (update made change path made []).map fun child => ms.put key (.table made child)
    | some (.table origin child) =>
      if origin = .inline ∨ (made = .dotted ∧ origin = .header) then none
      else (update made change path origin child).map fun child => ms.put key (.table origin child)
    | some (.tables items) =>
      match items.getLast? with
      | some (.table origin child) =>
        (update made change path origin child).map fun child =>
          ms.put key (.tables (items.dropLast ++ [.table origin child]))
      | _ => none
    | some _ => none

/-- Gives a key its value. A dotted key must end in a table that dotted keys made, a plain key must not be in one. -/
def defineIn (isDotted : Bool) (key : String) (v : Value) (origin : Origin) (ms : Members) : Option Members :=
  if isDotted != decide (origin = .dotted) then none
  else if (ms.value? key).isSome then none
  else some (ms.put key v)

/-- Gives a key its value, after the dotted path that leads to it from a table of a given origin. -/
def define (path : List String) (key : String) (v : Value) (origin : Origin) (ms : Members) : Option Members :=
  update .dotted (defineIn (!path.isEmpty) key v) path origin ms

/-- Opens a table by its header. -/
def openTable (key : String) (_ : Origin) (ms : Members) : Option Members :=
  match ms.value? key with
  | none => some (ms.put key (.table .header []))
  | some (.table .implied child) => some (ms.put key (.table .header child))
  | some _ => none

/-- Opens one more table of a list. -/
def openElement (key : String) (_ : Origin) (ms : Members) : Option Members :=
  match ms.value? key with
  | none => some (ms.put key (.tables [.table .header []]))
  | some (.tables items) => some (ms.put key (.tables (items ++ [.table .header []])))
  | some _ => none

end Lineage.Toml.Members
