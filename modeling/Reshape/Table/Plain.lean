/-
  Reshape.Table.Plain: a library of tables, for a command line that has no other.

  The columns of a table are those of its rows in the order in which they first appear. What is kept
  of a cell depends on its whole column. If all cells are numbers and one of them is missing or a
  float, all are floats, unless the integers do not fit into 64 bits. If all are moments, they are
  written with as much of the time of day as one of them needs. Other cells are kept and written one
  by one. A missing cell, null and no number are empty. The labels of the columns are written like a
  column themselves.

  A field is quoted if it holds a comma, a quote or a newline, which is what ends a row (a return does
  not), or if it is empty and alone in its row. A row with an integer too long to be written ends the
  table before it. There is no binary format.
-/

import Reshape.Table.Row
import Reshape.Text.Utf8

namespace Reshape

structure Table where
  labels : List Key
  /-- The values of every record, by the number of their column. -/
  rows : List (List (Nat × Value))

namespace Table

/-! ## Rows and columns -/

/-- Puts the values of a row into the columns of their keys, and adds the columns that are new. -/
def placeRow (labels : List Key) : Row → List Key × List (Nat × Value)
  | [] => (labels, [])
  | (k, v) :: row =>
    let (i, labels) := match labels.findIdx? (· == k) with
      | some i => (i, labels)
      | none => (labels.length, labels ++ [k])
    let (labels, cells) := placeRow labels row
    (labels, (i, v) :: cells)

def ofRows (labels : List Key) : List Row → Table
  | [] => ⟨labels, []⟩
  | row :: rows =>
    let (labels, cells) := placeRow labels row
    let table := ofRows labels rows
    { table with rows := cells :: table.rows }

def column (t : Table) (i : Nat) : List (Option Value) := t.rows.map (·.lookup i)

/-- The table of the records that a value yields. An empty dictionary is a record by itself. -/
def ofValue (data : Value) : Except TableFault Table :=
  match data.contents with
  | .scalar _ => .error .notATable
  | .dict _ => (flattenAll [.dict []]).map (ofRows [])
  | _ => (flattenAll (data.items?.getD [])).map (ofRows [])

/-- Whether integers fit together into 64 bits, with or without sign. -/
def fitWord (ns : List Int) : Bool :=
  ns.all (fun n => -Int.pow 2 63 ≤ n && n < Int.pow 2 63) ||
    ns.all fun n => 0 ≤ n && n < Int.pow 2 64

/-- A moment that does not say its distance from universal time. -/
def localMoment? : Option Value → Option Moment
  | some (.scalar (.moment m)) => if m.offset.isNone then some m else none
  | _ => none

/-- How the cells of a column are written. -/
inductive ColumnFormat where
  | plain
  | floats
  | moments (precision : Moment.Precision)
  deriving DecidableEq, Repr

/-- The format of a column: gaps fit into any. -/
def formatOf (cells : List (Option Value)) : ColumnFormat :=
  let filled := cells.filter (!isGap ·)
  if cells.any isNumber && filled.all isNumber && !cells.all (integer? · |>.isSome) &&
      fitWord (cells.filterMap integer?) then .floats
  else match filled.mapM localMoment? with
    | some (m :: ms) => .moments (Moment.precisionOf (m :: ms))
    | _ => .plain

/-- What is kept of a cell: nothing is no number. -/
def kept (format : ColumnFormat) (cell : Option Value) : Value :=
  match format, cell with
  | _, none => .float .nan
  | .floats, some (.int n) => .float (Double.ofInt n)
  | _, some v => v

/-- The text of what was kept; `none` if it cannot be written. -/
def keptText (format : ColumnFormat) (v : Value) : Option (List Char) :=
  if isGap (some v) then some []
  else match format, v with
    | .moments precision, .scalar (.moment m) => some (m.textTo precision)
    | _, v => v.text?

def cellText (format : ColumnFormat) (cell : Option Value) : Option (List Char) :=
  keptText format (kept format cell)

def columnTexts (cells : List (Option Value)) : List (Option (List Char)) :=
  cells.map (cellText (formatOf cells))

def cell (t : Table) (i j : Nat) : Value :=
  kept (formatOf (t.column j)) ((t.column j).getD i none)

/-! ## Labels -/

def labelCells (t : Table) : List (Option Value) := t.labels.map fun k => some k.toValue

/-- The name of a column. Null among numbers or among texts is no number. -/
def labelName (cells : List (Option Value)) (k : Key) : String :=
  let isText (cell : Option Value) : Bool := cell matches some (.str _)
  let isNumeric := formatOf cells = .floats
  let amongTexts := cells.any isText && cells.all fun c => isGap c || isText c
  match k with
  | .scalar .null => if isNumeric || amongTexts then "nan" else "None"
  | .scalar (.int n) =>
    if isNumeric then String.ofList (Double.ofInt n).text else k.string?.getD ""
  | k => k.string?.getD ""

def names (t : Table) : List String := t.labels.map (labelName t.labelCells)

/-! ## Text -/

def needsQuotes (cs : List Char) : Bool := cs.any fun c => c = ',' || c = '"' || c = '\n'

def quotedField (cs : List Char) : List Char :=
  '"' :: cs.flatMap (fun c => if c = '"' then ['"', '"'] else [c]) ++ ['"']

def field (cs : List Char) : List Char := if needsQuotes cs then quotedField cs else cs

def line (fields : List (List Char)) : List Char :=
  (if fields = [[]] then ['"', '"'] else ((fields.map field).intersperse [',']).flatten) ++ ['\n']

/-- The fields of the header and of every row; a field that cannot be written is `none`. -/
def fields (t : Table) : List (List (Option (List Char))) :=
  let columns := (List.range t.labels.length).map fun i => columnTexts (t.column i)
  columnTexts t.labelCells ::
    (List.range t.rows.length).map fun i => columns.map fun c => c.getD i (some [])

/-- Lines of fields up to the first that cannot be written; `true` if there is none. -/
def lines : List (List (Option (List Char))) → List Char × Bool
  | [] => ([], true)
  | fields :: rest => match fields.mapM id with
    | none => ([], false)
    | some fields =>
      let (text, isWhole) := lines rest
      (line fields ++ text, isWhole)

end Table

/-! ## Files -/

/-- Puts a file into a directory that must be there; its path may start with a home directory. -/
def Workspace.save (w : Workspace) (p : Path) (bytes : List UInt8) : Except FileFault Workspace :=
  let p := (w.expandHome? p).getD p
  match w.locate p.parent with
  | .ok (.directory _) => w.put p bytes
  | _ => .error (.noDirectory p.parent.text)

namespace Table

def saveLines (t : Table) (w : Workspace) (p : Path) : Workspace × Option TableFault :=
  let (text, isWhole) := lines t.fields
  match w.save p (Text.Utf8.encode text) with
  | .error fault => (w, some (.file fault))
  | .ok w => (w, if isWhole then none else some .unwritable)

def noBinary : TableFault := .failed "There is no binary format for tables here"

def plain : TableLibrary where
  Frame := Table
  columns := names
  height := fun t => t.rows.length
  cell := cell
  normalize := ofValue
  saveText := saveLines
  saveBinary := fun _ w _ => (w, some noBinary)

end Table

end Reshape
