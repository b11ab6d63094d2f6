/-
  Reshape.Proofs.TableLaws: what is assumed of a library of tables.

  The rows of records make a table. It has a column for every name, in the order in which the names first
  appear, and a row for every row. It keeps what stands in the rows, but gaps in a way of its own, and the
  integers of a column that is otherwise of gaps and floats as floats, at least if they fit into 64 bits and
  at most if floats go as far.
  A table is saved row by row, up to a row with a cell that has no text. Read as comma-separated values
  with newlines at the ends of rows, the file has a header and these rows, in which a gap is empty and
  another cell is its text. How moments are written is up to the library.

  A text of fields is cut at the newlines that stand outside of quotes, and each line at the commas that do.
  A field that starts with a quote goes up to the quote that closes it, and a doubled quote in it is one.
  - `TableLibrary.Normalizes`: what is assumed of the tables of records.
  - `TableLibrary.WritesRows`: what is assumed of the files of tables.
-/

import Reshape.Proofs.Flattening
import Reshape.Text.Utf8

namespace Reshape

namespace Table

/-! ## Reading -/

/-- The pieces of a text between the separators that stand outside of quotes; it starts `inside` of them or
not. -/
def piecesOutside (sep : Char) : Bool → List Char → List (List Char)
  | _, [] => [[]]
  | inside, c :: cs =>
    if c = sep ∧ inside = false then [] :: piecesOutside sep false cs
    else match piecesOutside sep (inside != (c = '"')) cs with
      | [] => [[c]]
      | p :: ps => (c :: p) :: ps

/-- The text up to the quote that closes it. -/
def quotedText : List Char → List Char
  | '"' :: '"' :: cs => '"' :: quotedText cs
  | '"' :: _ => []
  | c :: cs => c :: quotedText cs
  | [] => []

def fieldText : List Char → List Char
  | '"' :: cs => quotedText cs
  | cs => cs

/-- The fields of a line; a line of nothing has none. -/
def lineFields (cs : List Char) : List (List Char) :=
  if cs = [] then [] else (piecesOutside ',' false cs).map fieldText

/-- The rows of a text, each of which ends in a newline. -/
def readRows (text : List Char) : List (List (List Char)) :=
  (piecesOutside '\n' false text).dropLast.map lineFields

/-! ## Columns -/

/-- A column of numbers with a gap or a float among them. -/
structure IsMixed (column : List (Option Value)) : Prop where
  number : ∃ cell ∈ column, isNumber cell = true
  numbers : ∀ cell ∈ column, isGap cell = false → isNumber cell = true
  other : ∃ cell ∈ column, integer? cell = none

/-- Its integers fit into 64 bits. -/
structure IsFloats (column : List (Option Value)) : Prop where
  mixed : IsMixed column
  fit : ∀ n, some (.int n) ∈ column → -Int.pow 2 63 ≤ n ∧ n < Int.pow 2 63

/-- Floats have no more binary digits before the point. -/
def floatDigits : Nat := 1024

/-- What a table keeps of a cell of a column. -/
inductive Keeps (column : List (Option Value)) : Option Value → Value → Prop where
  | gap {cell : Option Value} {v : Value} : isGap cell = true → isGap (some v) = true → Keeps column cell v
  | float {n : Int} : IsMixed column → n.natAbs.log2 < floatDigits → Keeps column (some (.int n)) (.float (Double.ofInt n))
  | value {v : Value} : isGap (some v) = false → (IsFloats column → integer? (some v) = none) →
      Keeps column (some v) v

/-- What is written of a value that a table keeps. -/
inductive IsField : Value → List Char → Prop where
  | gap {v : Value} : isGap (some v) = true → IsField v []
  | moment {m : Moment} {cs : List Char} : cs ≠ [] → IsField (.scalar (.moment m)) cs
  | text {v : Value} {cs : List Char} : isGap (some v) = false → (∀ m, v ≠ .scalar (.moment m)) →
      v.text? = some cs → IsField v cs

/-- The names under which the rows have something, in the order in which they first appear. -/
def firstNames (rows : List Row) : List String :=
  (rows.flatMap fun row => (Entries.keys row).filterMap Key.string?).eraseDups

theorem firstNames_rowOf (rows : List (List (String × Value))) :
    firstNames (rows.map rowOf) = (rows.flatMap Entries.keys).eraseDups := by
  have hkeys : ∀ cells : List (String × Value),
      (Entries.keys (rowOf cells)).filterMap Key.string? = Entries.keys cells := by
    intro cells
    induction cells with
    | nil => rfl
    | cons c cells ih =>
      show List.filterMap Key.string? (.str c.1 :: Entries.keys (rowOf cells)) = _
      rw [List.filterMap_cons_some (Key.string?_str c.1), ih]
      rfl
  simp [firstNames, List.flatMap_map, hkeys]

end Table

namespace Workspace

/-- The path of a table, with a home directory at its start written out. -/
def tablePath (w : Workspace) (p : Path) : Path := (w.expandHome? p).getD p

/-- The file under the path reads as these rows of fields. -/
def HoldsRows (w : Workspace) (p : Path) (rows : List (List (List Char))) : Prop :=
  ∃ text, w.contents? p = some (Text.Utf8.encode text) ∧ Table.readRows text = rows

end Workspace

/-! ## Laws -/

namespace TableLibrary

open Table

variable (library : TableLibrary)

/-- The table of these rows. -/
structure IsTableOf (rows : List Row) (t : library.Frame) : Prop where
  columns : library.columns t = firstNames rows
  height : library.height t = rows.length
  cell : ∀ i j row n, rows[i]? = some row → (firstNames rows)[j]? = some n →
    Keeps (rows.map (·.lookup (.str n))) (row.lookup (.str n)) (library.cell t i j)

/-- Records with names for keys are flattened one by one, and their rows make a table. -/
structure Normalizes : Prop where
  table : ∀ data records rows, data.contents = .list records → (∀ r ∈ records, IsNamed r) →
    flattenAll records = .ok rows → ∃ t, library.normalize data = .ok t ∧ library.IsTableOf rows t
  fault : ∀ data records fault, data.contents = .list records → (∀ r ∈ records, IsNamed r) →
    flattenAll records = .error fault → library.normalize data = .error fault

def header (t : library.Frame) : List (List Char) := (library.columns t).map String.toList

/-- The fields of the row of this number. -/
structure IsLine (t : library.Frame) (i : Nat) (fields : List (List Char)) : Prop where
  length : fields.length = (library.columns t).length
  field : ∀ j cs, fields[j]? = some cs → IsField (library.cell t i j) cs

/-- What comes of saving a table as text. -/
inductive Saved (t : library.Frame) (w' : Workspace) (p : Path) : Option TableFault → Prop where
  | whole {rows : List (List (List Char))} : w'.HoldsRows p (library.header t :: rows) →
      (∀ i fields, rows[i]? = some fields → library.IsLine t i fields) → rows.length = library.height t →
      Saved t w' p none
  /-- A cell that has no text ends the file before its row. -/
  | cut {rows : List (List (List Char))} {j : Nat} : w'.HoldsRows p (library.header t :: rows) →
      (∀ i fields, rows[i]? = some fields → library.IsLine t i fields) → rows.length < library.height t →
      j < (library.columns t).length → (library.cell t rows.length j).text? = none →
      Saved t w' p (some .unwritable)
  | file {fault : FileFault} : Saved t w' p (some (.file fault))

/-- A table of records with names for keys is saved row by row. -/
structure WritesRows : Prop where
  saved : ∀ data records t w p w' fault, data.contents = .list records → (∀ r ∈ records, IsNamed r) →
    library.normalize data = .ok t → library.saveText t w p = (w', fault) →
    library.Saved t w' (w.tablePath p) fault

end TableLibrary

end Reshape
