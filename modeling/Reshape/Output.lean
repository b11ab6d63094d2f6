/-
  Reshape.Output: results as lines of JSON.

  Every record is one line. The records are what going through a value yields. A record that cannot
  be written ends the file after the lines before it.
-/

import Reshape.Json.Writer
import Reshape.Text.Utf8
import Reshape.Value.Web
import Reshape.Workspace

namespace Reshape

inductive OutputFault where
  | file (fault : FileFault)
  | json (fault : Json.WriteFault)
  | notIterable (kind : String)
  deriving DecidableEq, Repr

def OutputFault.message : OutputFault → String
  | .file fault => fault.message
  | .json fault => fault.message
  | .notIterable kind => Reshape.notIterable kind

namespace Output

/-- The lines of the records up to the first that cannot be written, and their number or why that one
cannot. -/
def jsonLines : List Value → List Char × Except Json.WriteFault Nat
  | [] => ([], .ok 0)
  | v :: vs => match Json.write Json.oneLine v with
    | .error fault => ([], .error fault)
    | .ok cs =>
      let (rest, count) := jsonLines vs
      (cs ++ '\n' :: rest, count.map (· + 1))

/-- The lines of the records that a value yields, and their number or why there are no more. -/
def linesOf (data : Value) : List Char × Except OutputFault Nat :=
  match data.items? with
  | none => ([], .error (.notIterable data.qualifiedKind))
  | some records =>
    let (cs, count) := jsonLines records
    (cs, count.mapError .json)

end Output

namespace Workspace

/-- Writes records as lines of JSON and counts them; gives the workspace after that, also if it
fails. -/
def writeRecords (w : Workspace) (p : Path) (data : Value) : Workspace × Except OutputFault Nat :=
  let (cs, count) := Output.linesOf data
  match w.makeDirectory p.parent with
  | (w, some fault) => (w, .error (.file fault))
  | (w, none) => match w.put p (Text.Utf8.encode cs) with
    | .error fault => (w, .error (.file fault))
    | .ok w => (w, count)

/-- The same without the count. -/
def writeJsonLines (w : Workspace) (p : Path) (data : Value) : Workspace × Option OutputFault :=
  match w.writeRecords p data with
  | (w, .error fault) => (w, some fault)
  | (w, .ok _) => (w, none)

end Workspace

end Reshape
