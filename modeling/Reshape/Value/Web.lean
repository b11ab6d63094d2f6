/-
  Reshape.Value.Web: the values of webs.

  A cell is seen from its own place by going into its parts, and stopping where a container comes
  again that one is inside of. A cell whose view stops nowhere is an ordinary value.
  - `contents_of_not_cyclic`: only a cyclic value differs from its contents.
-/

import Reshape.Value

namespace Reshape

mutual
/-- Whether a container comes again in a view. -/
def Value.repeats : Value → Bool
  | .scalar _ | .set _ | .cyclic _ _ _ => false
  | .again _ => true
  | .seq _ items => Value.repeatsIn items
  | .dict entries => Value.repeatsInEntries entries
def Value.repeatsIn : List Value → Bool
  | [] => false
  | v :: vs => v.repeats || Value.repeatsIn vs
def Value.repeatsInEntries : List (Key × Value) → Bool
  | [] => false
  | (_, v) :: es => v.repeats || Value.repeatsInEntries es
end

namespace Web

/-- The view of a cell inside the containers of these numbers. The depth is that of the web at
most, because all containers around a cell are different. -/
def viewWithin (web : Web) : Nat → List Nat → Nat → Value
  | 0, _, _ => .null
  | depth + 1, around, n => match web[n]? with
    | none => .null
    | some (.scalar s) => .scalar s
    | some (.set items) => .set items
    | some (.seq form items) =>
      if around.contains n then .again (.seq form)
      else .seq form (items.map (viewWithin web depth (n :: around)))
    | some (.dict entries) =>
      if around.contains n then .again .dict
      else .dict (entries.map fun (k, m) => (k, viewWithin web depth (n :: around) m))

def view (web : Web) (n : Nat) : Value := viewWithin web (Array.size web + 1) [] n

/-- The value of a cell. -/
def value (web : Web) (n : Nat) : Value :=
  let view := web.view n
  if view.repeats then .cyclic web n view else view

/-- A cell as a container of the values of its parts. -/
def contents (web : Web) (n : Nat) : Value :=
  match web[n]? with
  | none => .null
  | some (.scalar s) => .scalar s
  | some (.set items) => .set items
  | some (.seq form items) => .seq form (items.map (value web))
  | some (.dict entries) => .dict (entries.map fun (k, m) => (k, value web m))

/-- The dictionaries of a cell, and those in them, in the open inside the dictionaries of these
numbers; what is no dictionary is a value of its own. -/
def openWithin (web : Web) : Nat → List Nat → Nat → Value
  | 0, _, _ => .null
  | depth + 1, around, n => match web[n]? with
    | some (.dict entries) =>
      if around.contains n then .again .dict
      else .dict (entries.map fun (k, m) => (k, openWithin web depth (n :: around) m))
    | _ => web.value n

end Web

/-- The value with its parts in the open. -/
def Value.contents : Value → Value
  | .cyclic web n _ => web.contents n
  | v => v

mutual
/-- The value with its dictionaries, and those in them, in the open, each down to where it comes
again. -/
def Value.opened : Value → Value
  | .dict entries => .dict (Value.openedEntries entries)
  | .cyclic web n _ => web.openWithin (Array.size web + 1) [] n
  | v => v
def Value.openedEntries : List (Key × Value) → List (Key × Value)
  | [] => []
  | (k, v) :: es => (k, v.opened) :: Value.openedEntries es
end

/-- What going through a value yields: the items of a sequence or set, the keys of a dictionary, the
characters of a text. -/
def Value.items? (v : Value) : Option (List Value) :=
  match v.contents with
  | .seq _ items => some items
  | .dict entries => some ((Entries.keys entries).map Key.toValue)
  | .set items => some (items.map Key.toValue)
  | .str s => some (s.toList.map fun c => .str (String.ofList [c]))
  | .scalar (.bytes bs) => some (bs.map fun b => .int b.toNat)
  | _ => none

/-- What is said of a value of a kind that cannot be gone through. -/
def notIterable (kind : String) : String := s!"'{kind}' object is not iterable"

theorem Value.contents_of_not_cyclic {v : Value} (h : ∀ web n view, v ≠ .cyclic web n view) :
    v.contents = v := by
  cases v <;> first | rfl | exact absurd rfl (h _ _ _)

end Reshape
