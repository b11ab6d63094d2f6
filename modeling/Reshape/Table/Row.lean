/-
  Reshape.Table.Row: records as rows.

  Dictionaries inside a record are flattened: their entries stand in the row under dotted names, after
  the record's other entries, and replace what is there under the same name. There is no end to that
  if a dictionary holds itself. A column is what the rows have under one name; some have nothing there,
  and null and no number count as nothing.
-/

import Reshape.Table
import Reshape.Value.Text

namespace Reshape.Table

/-- A record, flattened. -/
abbrev Row := List (Key × Value)

/-! ## Flattening -/

def dotted (outer inner : String) : String := if outer = "" then inner else outer ++ "." ++ inner

mutual
/-- Adds an open value under a name: a dictionary by its entries, anything else by itself. -/
def flatten (name : String) (row : Row) : Value → Except TableFault Row
  | .dict entries => flattenEntries name row entries
  | .again .dict => .error .endless
  | v => .ok (Entries.put (.str name) v row)
def flattenEntries (name : String) (row : Row) : List (Key × Value) → Except TableFault Row
  | [] => .ok row
  | (k, v) :: es => match k.string? with
    | none => .error .unwritable
    | some inner => do
      let row ← flatten (dotted name inner) row v
      flattenEntries name row es
end

/-- Whether an open value is a dictionary. -/
def isDict : Value → Bool
  | .dict _ | .again .dict => true
  | _ => false

/-- The row of a record with these entries. -/
def flattenRecord (entries : List (Key × Value)) : Except TableFault Row := do
  let entries := Value.openedEntries entries
  let inner ← flattenEntries "" [] (entries.filter fun e => isDict e.2)
  pure (Entries.putAll (entries.filter fun e => !isDict e.2) inner)

/-- The entries of a record, which must be a dictionary. -/
def entriesOf (record : Value) : List (Key × Value) :=
  match record.contents with
  | .dict entries => entries
  | _ => []

/-- The rows of records. -/
def flattenAll (records : List Value) : Except TableFault (List Row) :=
  records.mapM fun record => flattenRecord (entriesOf record)

/-! ## Cells -/

def isGap : Option Value → Bool
  | none | some .null | some (.float .nan) => true
  | _ => false

def integer? : Option Value → Option Int
  | some (.int n) => some n
  | _ => none

def isNumber : Option Value → Bool
  | some (.int _) | some (.float _) => true
  | _ => false

end Reshape.Table
