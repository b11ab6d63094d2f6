/-
  Reshape.Tree.Compile: from the description of a mapping to its tree.

  A description is a value: a text is a rule, lists, tuples and dictionaries give the shape, and
  nothing else is allowed. Keys become texts, and of two keys with one text the last one's tree
  stays, though both are read. The first defect from left to right is reported with its place in
  the document. A description that holds itself is read without an end, unless there is a defect
  before the place where it comes again.
-/

import Reshape.Tree

namespace Reshape

/-- A step from a value into one of its parts. -/
inductive Step where
  | key (name : String)
  | index (i : Nat)
  deriving DecidableEq, Repr

/-- A place in a document, as the steps from the document to it. -/
abbrev Location := List Step

namespace Location

def tailText : Location → String
  | [] => ""
  | .key name :: rest => "." ++ name ++ tailText rest
  | .index i :: rest => "[" ++ String.ofList (Number.natText i) ++ "]" ++ tailText rest

/-- Keys are joined by dots, indices stand in brackets. -/
def text : Location → String
  | .key name :: rest => name ++ tailText rest
  | rest => tailText rest

end Location

inductive CompileFault where
  | documentKind (kind : String)
  | propertiesMissing
  | nestedKind (kind : String)
  | nestedName (name : String)
  | unsupported (place : Location) (kind : String)
  | rule (place : Location) (text : String) (fault : RuleFault)
  | cycle (names : List String)
  /-- A rule leads to a nested mapping that is not there; compiled rules never do. -/
  | undefinedReference (name : String)
  /-- A key holds an integer that is too long to be written. -/
  | unwritableKey
  /-- A description holds itself, so that there is no end to reading it. -/
  | endless
  deriving DecidableEq, Repr

def CompileFault.message : CompileFault → String
  | .documentKind kind => s!"Transformation document must be a mapping, got {kind}"
  | .propertiesMissing => "Configuration properties are missing"
  | .nestedKind kind => s!"Nested mappings must be a mapping, got {kind}"
  | .nestedName name => s!"Nested mapping name must start with '$': {Text.quoted name}"
  | .unsupported place kind =>
    s!"Unsupported mapping value at {place.text}: {kind} (expected rule string, list or mapping)"
  | .rule place text fault => fault.message place.text text
  | .cycle names =>
    "Nested mappings reference each other without consuming input: " ++ Text.join " -> " names
  | .undefinedReference name => Text.quoted name
  | .unwritableKey => integerTooLong
  | .endless => "maximum recursion depth exceeded"

/-- Whether a fault is a defect of the document, and not a failure to read it. -/
def CompileFault.isDefect : CompileFault → Bool
  | .undefinedReference _ | .unwritableKey | .endless => false
  | _ => true

/-- The text under which a key of a description appears in the tree. -/
def keyName (k : Key) : Except CompileFault String :=
  match k.string? with
  | some name => .ok name
  | none => .error .unwritableKey

mutual
def Tree.compile (names : List String) (known : String → Bool) (place : Location) :
    Value → Except CompileFault Tree
  | .scalar (.str text) => match Rule.parse names known text with
    | .ok rule => .ok (.leaf rule)
    | .error fault => .error (.rule place text fault)
  | .scalar s => .error (.unsupported place s.kind)
  | .seq _ items => (Tree.compileItems names known place 0 items).map .list
  | .dict entries =>
    (Tree.compileEntries names known place entries).map fun es => .dict (Entries.ofList es)
  | .set items => .error (.unsupported place (Value.set items).kind)
  | .cyclic _ _ view => Tree.compile names known place view
  | .again _ => .error .endless
def Tree.compileItems (names : List String) (known : String → Bool) (place : Location) (i : Nat) :
    List Value → Except CompileFault (List Tree)
  | [] => .ok []
  | v :: vs => do
    let t ← Tree.compile names known (place ++ [.index i]) v
    let ts ← Tree.compileItems names known place (i + 1) vs
    pure (t :: ts)
def Tree.compileEntries (names : List String) (known : String → Bool) (place : Location) :
    List (Key × Value) → Except CompileFault (List (String × Tree))
  | [] => .ok []
  | (k, v) :: es => do
    let name ← keyName k
    let t ← Tree.compile names known (place ++ [.key name]) v
    let ts ← Tree.compileEntries names known place es
    pure ((name, t) :: ts)
end

end Reshape
