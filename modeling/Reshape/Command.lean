/-
  Reshape.Command: the commands of the program.

  `check` compiles a document and prints its rules. `apply` transforms every input and prints or
  writes the results: it writes nothing before every input has been transformed. `converters`
  lists the converters that come with the program.

  A command ends well, or is refused with a message about what it was given, or ends with a fault
  that it does not explain: one of a converter, of writing, of a scalar that has no value, or of a
  document that holds itself.
-/

import Reshape.Catalogue
import Reshape.Evaluation
import Reshape.Host
import Reshape.Load
import Reshape.Log
import Reshape.Output

namespace Reshape.Command

inductive Fault where
  | compile (fault : CompileFault)
  | evaluation (fault : EvaluationFault)
  | load (fault : LoadFault)
  | output (fault : OutputFault)
  | table (fault : TableFault)
  deriving DecidableEq, Repr

def Fault.message : Fault → String
  | .compile fault => fault.message
  | .evaluation fault => fault.message
  | .load fault => fault.message
  | .output fault => fault.message
  | .table fault => fault.message

inductive Failure where
  /-- The words of the command line do not fit. -/
  | usage
  | rejected (message : String)
  | escaped (fault : Fault)
  deriving DecidableEq, Repr

/-- What a command prints, how it fails, and the workspace after it. -/
structure Report where
  printed : String
  failure : Option Failure
  workspace : Workspace

variable (host : Host)

/-- Registers the tables that the specs name, on top of the converters that come with the program
unless these are not wanted. -/
def buildRegistry (catalogue : Catalogue) (o : Options) : Except Failure Registry :=
  let base := if o.builtins then Registry.ofTable Builtin.table else Registry.empty
  o.converters.foldlM (fun r spec =>
    match catalogue.load spec with
    | .error fault => .error (.rejected s!"--converters {spec}: {fault.message}")
    | .ok table => match r.registerAll table with
      | (r, none) => .ok r
      | (_, some fault) => .error (.rejected s!"--converters {spec}: {fault.message}")) base

/-- Whether a fault of loading is one that a command explains. -/
def isExplained : LoadFault → Bool
  | .file .embeddedNull => true
  | .file _ | .noHome => false
  | .yaml (.truth _) | .yaml .emptyNumber | .yaml .notADate | .yaml .dateInMapping => false
  | .yaml .codePointTooLarge | .yaml .tooManySixties => false
  | _ => true

def loadFailure (p : Path) (fault : LoadFault) : Failure :=
  if isExplained fault then .rejected s!"{p.text}: {fault.message}" else .escaped (.load fault)

/-- A command explains the defects of a document, and keys that cannot be written. -/
def compileFailure (p : Path) (fault : CompileFault) : Failure :=
  if fault.isDefect || fault = .unwritableKey then .rejected s!"{p.text}: {fault.message}"
  else .escaped (.compile fault)

def compileFile (w : Workspace) (r : Registry) (mapping : Path) :
    Except Failure Transformation :=
  match w.loadDocument host.yaml mapping with
  | .error fault => .error (loadFailure mapping fault)
  | .ok document => match Transformation.compile r.has document with
    | .error fault => .error (compileFailure mapping fault)
    | .ok t => .ok t

def loadInputs (w : Workspace) (inputs : Path) : Except Failure (List Value) :=
  match w.loadInputs host.yaml inputs with
  | .error fault => .error (loadFailure inputs fault)
  | .ok documents => .ok documents

/-- The results of all inputs, or the fault of the first that fails. -/
def transformAll (t : Transformation) (r : Registry) (inputs : List Value) :
    Except Failure (List Value) :=
  inputs.mapM fun data => match t.evaluate host.depth r data with
    | .ok v => .ok v
    | .error fault => .error (.escaped (.evaluation fault))

/-- A value as an indented JSON text with a line end. -/
def printJson (w : Workspace) (ascii : Bool) (v : Value) : Report :=
  match Json.write (Json.indented ascii) v with
  | .ok cs => ⟨String.ofList (cs ++ ['\n']), none, w⟩
  | .error fault => ⟨"", some (.escaped (.output (.json fault))), w⟩

def wrote (n : Nat) (p : Path) : String := s!"Wrote {n} record(s) to {p.text}\n"

/-- Whether a fault of a table is one that a command explains. -/
def isExplainedTable : TableFault → Bool
  | .unsupported _ | .notAMapping _ | .unwritable | .unfit _ | .file .embeddedNull => true
  | _ => false

def tableFailure (fault : TableFault) : Failure :=
  if isExplainedTable fault then .rejected fault.message else .escaped (.table fault)

def writeResults (w : Workspace) (p : Path) (results : List Value) : Report :=
  if p.format = ".jsonl" then
    match w.writeJsonLines p (.list results) with
    | (w, some fault) => ⟨"", some (.escaped (.output fault)), w⟩
    | (w, none) => ⟨wrote results.length p, none, w⟩
  else match w.writeTable host.tables p (.list results) with
    | (w, .error fault) => ⟨"", some (tableFailure fault), w⟩
    | (w, .ok _) => ⟨wrote results.length p, none, w⟩

def check (catalogue : Catalogue) (mapping : Path) (o : Options) (w : Workspace) :
    Except Failure Transformation := do
  let r ← buildRegistry catalogue o
  compileFile host w r mapping

/-- The results of `apply`, before they are printed or written. -/
def results (catalogue : Catalogue) (mapping inputs : Path) (o : Options) (w : Workspace) :
    Except Failure (List Value) := do
  let r ← buildRegistry catalogue o
  let t ← compileFile host w r mapping
  let documents ← loadInputs host w inputs
  transformAll host t r documents

def runRequest (catalogue : Catalogue) (w : Workspace) : Request → Report
  | .check mapping o => match check host catalogue (Path.ofString mapping) o w with
    | .error failure => ⟨"", some failure, w⟩
    | .ok t => printJson w true t.summary
  | .apply mapping inputs o =>
    match results host catalogue (Path.ofString mapping) (Path.ofString inputs) o w with
    | .error failure => ⟨"", some failure, w⟩
    | .ok values => match o.out with
      | none => printJson w false (.list values)
      | some p => writeResults host w (Path.ofString p) values
  | .converters => ⟨Text.join "" (Builtin.names.map (· ++ "\n")), none, w⟩

/-- The records of what happens in evaluating the inputs, up to the first that fails. -/
def evaluationLog (t : Transformation) (r : Registry) (n : Nat) (inputs : Path) :
    List Value → List Log.Record
  | [] => [Log.ofTransformed n inputs.text]
  | data :: rest =>
    let run := t.runWithin host.depth r data
    match run.outcome with
    | .error _ => Log.ofEvents run.events
    | .ok _ => Log.ofEvents run.events ++ evaluationLog t r (n + 1) inputs rest

/-- The records that a command logs. -/
def log (catalogue : Catalogue) (w : Workspace) : Request → List Log.Record
  | .check mapping o => match check host catalogue (Path.ofString mapping) o w with
    | .error _ => []
    | .ok t => [Log.ofCompiled t]
  | .apply mapping inputs o =>
    let inputs := Path.ofString inputs
    match buildRegistry catalogue o, check host catalogue (Path.ofString mapping) o w with
    | .ok r, .ok t => Log.ofCompiled t :: match loadInputs host w inputs with
      | .ok documents => evaluationLog host t r 0 inputs documents
      | .error _ => []
    | _, _ => []
  | .converters => []

/-- The files that a command may read. -/
def Request.sources : Request → List String
  | .check mapping _ => [mapping]
  | .apply mapping inputs _ => [mapping, inputs]
  | .converters => []

/-- The file that a command may write. -/
def Request.destination? : Request → Option String
  | .apply _ _ o => o.out
  | _ => none

/-- Runs a command line. A path with the character that ends paths is not even looked at. -/
def run (catalogue : Catalogue) (w : Workspace) (words : List String) : Report :=
  match (host.parse words).request with
  | none => ⟨"", some .usage, w⟩
  | some request =>
    if (request.sources ++ request.destination?.toList).any (·.toList.contains '\x00') then
      ⟨"", some (.escaped (.load (.file .embeddedNull))), w⟩
    else runRequest host catalogue w request

end Reshape.Command
