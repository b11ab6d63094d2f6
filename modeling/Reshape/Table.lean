/-
  Reshape.Table: records that are saved as a table.

  The suffix of the path chooses the format. Before anything is made it is seen to that the format is
  known and that all records are dictionaries. What a table is, how it is made of records and how it
  is saved is up to a library, which is given. It can refuse records, and it can stop when a part of
  the file is written.
-/

import Reshape.Converter
import Reshape.Value.Web
import Reshape.Workspace

namespace Reshape

inductive TableFault where
  | unsupported (suffix : String)
  | notIterable (kind : String)
  | notAMapping (record : Nat)
  /-- The records are those of an empty text, which is no table. -/
  | notATable
  /-- An integer is too long to be written. -/
  | unwritable
  /-- A dictionary holds itself, so that there is no end to flattening it. -/
  | endless
  | file (fault : FileFault)
  /-- The library has no way to save the table in the format. -/
  | unfit (message : String)
  /-- The library fails otherwise. -/
  | failed (message : String)
  deriving DecidableEq, Repr

def TableFault.message : TableFault → String
  | .unsupported suffix =>
    s!"Unsupported table format: {Text.quoted suffix} (use .csv or .parquet)"
  | .notIterable kind => Reshape.notIterable kind
  | .notATable => ""
  | .notAMapping record =>
    s!"Tabular output needs mapping records; record {record} is not a mapping"
  | .unwritable => integerTooLong
  | .endless => "maximum recursion depth exceeded"
  | .file fault => fault.message
  | .unfit message | .failed message => message

/-- A library that makes tables of records and saves them. -/
structure TableLibrary where
  /-- Its tables. -/
  Frame : Type
  /-- The names of the columns. -/
  columns : Frame → List String
  /-- The number of rows. -/
  height : Frame → Nat
  /-- What stands in a row and a column, both by their numbers. -/
  cell : Frame → Nat → Nat → Value
  /-- The table of the records that a value yields. -/
  normalize : Value → Except TableFault Frame
  /-- Saves a table as comma-separated values: the workspace after that, and why it is not saved. -/
  saveText : Frame → Workspace → Path → Workspace × Option TableFault
  /-- Saves a table in the binary format. -/
  saveBinary : Frame → Workspace → Path → Workspace × Option TableFault

namespace Table

def isMapping (v : Value) : Bool :=
  match v.contents with
  | .dict _ => true
  | _ => false

/-- Why what a value yields is not records for a table; `none` if it is. -/
def defect? (data : Value) : Option TableFault :=
  match data.items? with
  | none => some (.notIterable data.qualifiedKind)
  | some values => (values.findIdx? (!isMapping ·)).map .notAMapping

end Table

namespace Workspace

variable (w : Workspace) (library : TableLibrary)

def tableSuffixes : List String := [".csv", ".parquet"]

/-- Saves a table in the format that the suffix of the path chooses; gives the workspace after that,
also if it fails. -/
def saveTable (p : Path) (t : library.Frame) : Workspace × Except TableFault library.Frame :=
  match if p.format = ".csv" then library.saveText t w p else library.saveBinary t w p with
  | (w, none) => (w, .ok t)
  | (w, some fault) => (w, .error fault)

/-- Saves records as a table, making the directory that it is in; gives the workspace after that,
also if it fails. -/
def writeTable (p : Path) (data : Value) : Workspace × Except TableFault library.Frame :=
  if !tableSuffixes.contains p.format then (w, .error (.unsupported p.suffix))
  else match Table.defect? data with
    | some fault => (w, .error fault)
    | none => match w.makeDirectory p.parent with
      | (w, some fault) => (w, .error (.file fault))
      | (w, none) => match library.normalize data with
        | .error fault => (w, .error fault)
        | .ok t => w.saveTable library p t

end Workspace

end Reshape
