/-
  Reshape.Load: documents and inputs from files.

  The suffix of the resolved path chooses the format: YAML for `.yaml` and `.yml`, JSON otherwise.
  A transformation document must be a dictionary. Inputs are the items of a list, or one document
  by itself; in a `.jsonl` file every line that is not blank holds one. What is wrong with a line
  is reported with its number. Lines are decoded in blocks, so that a line before the block with an
  invalid byte is read, and reported, first.

  How YAML is read is up to a library, which is given. Texts hold no lone surrogates: JSON that
  escapes one is read with a replacement character in its place, and what such files come to is
  not said here.
-/

import Reshape.Json.Reader
import Reshape.Text.Lines
import Reshape.Text.Utf8
import Reshape.Value.Web
import Reshape.Workspace
import Reshape.Yaml.Fault

namespace Reshape

inductive LoadFault where
  | noHome
  | missing (path : String)
  | file (fault : FileFault)
  | encoding (fault : Text.Utf8Fault)
  | invalid (path format : String)
  | invalidLine (path : String) (line : Nat)
  | integerTooLong (digits : Nat)
  /-- Well-formed YAML with a scalar that has no value. -/
  | yaml (fault : Yaml.Fault)
  | notAMapping (path : String)
  deriving DecidableEq, Repr

def LoadFault.message : LoadFault → String
  | .noHome => "Could not determine home directory."
  | .missing path => path
  | .file fault => fault.message
  | .encoding fault => fault.message
  | .invalid path format => s!"{path}: invalid {format}"
  | .invalidLine path line => s!"{path}:{line}: invalid JSON"
  | .integerTooLong digits => numeralTooLong digits
  | .yaml fault => fault.message
  | .notAMapping path => s!"{path}: transformation document must be a mapping"

namespace Workspace

/-- The resolved path and the bytes of a file, which must be there. -/
def open? (w : Workspace) (p : Path) : Except LoadFault (Path × List UInt8) :=
  match w.expandHome? p with
  | none => .error (if p.startsWithNull then .file .embeddedNull else .noHome)
  | some p =>
    let p := w.resolve p
    if p.hasNull then .error (.file .embeddedNull)
    else match w.locateResolved p with
      | .ok (.file q) => .ok (p, (w.files.lookup q).getD [])
      | .error .nameTooLong => .error (.file (.nameTooLong p.text))
      | _ => .error (.missing p.text)

def yamlSuffixes : List String := [".yaml", ".yml"]

def readYaml (yaml : Yaml.Reader) (path : Path) (cs : List Char) : Except LoadFault Value :=
  match yaml cs with
  | .ok v => .ok v
  | .error .malformed => .error (.invalid path.text "YAML")
  | .error fault => .error (.yaml fault)

def readJson (path : Path) (cs : List Char) : Except LoadFault Value :=
  match Json.read cs with
  | .ok v => .ok v
  | .error (.malformed _ _) => .error (.invalid path.text "JSON")
  | .error (.integerTooLong n) => .error (.integerTooLong n)

/-- The value that a whole file holds. -/
def readStructured (yaml : Yaml.Reader) (path : Path) (bytes : List UInt8) :
    Except LoadFault Value :=
  match Text.Utf8.decode bytes with
  | .error fault => .error (.encoding fault)
  | .ok cs =>
    let cs := Text.unifyLineEnds cs
    if yamlSuffixes.contains path.format then readYaml yaml path cs else readJson path cs

def loadDocument (w : Workspace) (yaml : Yaml.Reader) (p : Path) : Except LoadFault Value := do
  let (path, bytes) ← w.open? p
  let document ← readStructured yaml path bytes
  match document.contents with
  | .dict _ => pure document
  | _ => throw (.notAMapping path.text)

/-! ## Lines -/

/-- The values of the lines from line `n` on, blank ones passed over. -/
def readLines (path : Path) (n : Nat) : List (List Char) → Except LoadFault (List Value)
  | [] => .ok []
  | line :: lines =>
    match Text.strip line with
    | [] => readLines path (n + 1) lines
    | cs => match Json.read cs with
      | .error (.malformed _ _) => .error (.invalidLine path.text n)
      | .error (.integerTooLong digits) => .error (.integerTooLong digits)
      | .ok v => (readLines path (n + 1) lines).map (v :: ·)

/-- The lines that are certain to have ended: a return at the end may be half of a line end. -/
def endedLines (cs : List Char) : List (List Char) :=
  let cs := if cs.getLast? = some '\r' then cs.dropLast else cs
  (Text.pieces '\n' (Text.unifyLineEnds cs)).dropLast

/-- Bytes of a file that are decoded together. -/
def blockSize : Nat := 8192

def blocks (size : Nat) : Nat → List UInt8 → List (List UInt8)
  | 0, _ => []
  | _, [] => []
  | fuel + 1, bytes => bytes.take size :: blocks size fuel (bytes.drop size)

def readLinesOf (path : Path) (bytes : List UInt8) : Except LoadFault (List Value) :=
  match Text.Utf8.decodeBlocks [] (blocks blockSize bytes.length bytes) with
  | (cs, none) => readLines path 1 (Text.lines cs)
  | (cs, some fault) => match readLines path 1 (endedLines cs) with
    | .error fault => .error fault
    | .ok _ => .error (.encoding fault)

def loadInputs (w : Workspace) (yaml : Yaml.Reader) (p : Path) : Except LoadFault (List Value) := do
  let (path, bytes) ← w.open? p
  if path.format = ".jsonl" then readLinesOf path bytes
  else
    let v ← readStructured yaml path bytes
    match v.contents with
    | .list items => pure items
    | _ => pure [v]

end Workspace

end Reshape
