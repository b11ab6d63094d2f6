/-
  Reshape.Transformation: compiling a transformation document.

  A document has a mapping under `properties` and, under `nested`, mappings by name. A compiled
  transformation refers to known converters and nested mappings only, and has no chain of nested
  mappings that leads back to itself without taking a part of the data. The defect that is
  reported is the first in this order: the shape of the document, the names of the nested mappings,
  their descriptions, the description of the properties, a cycle.
-/

import Reshape.References
import Reshape.Tree.Compile
import Reshape.Value.Web

namespace Reshape

structure Transformation where
  properties : Tree
  nested : Nested
  deriving Repr

namespace Transformation

def nestedNames : List (Key × Value) → Except CompileFault (List String)
  | [] => .ok []
  | (k, _) :: es => do
    let name ← keyName k
    let names ← nestedNames es
    pure (name :: names)

def isValidNestedName (name : String) : Bool := isNestedName name && name ≠ "$"

/-- Compiles nested mappings by their keys. -/
def compileNamed (known : String → Bool) (entries : List (Key × Value)) :
    Except CompileFault Nested := do
  let names ← nestedNames entries
  match names.find? (!isValidNestedName ·) with
  | some name => .error (.nestedName name)
  | none =>
    let trees ← Tree.compileEntries names known [.key "nested"] entries
    pure (Entries.ofList trees)

def compileNested (known : String → Bool) (v : Value) : Except CompileFault Nested :=
  match v.contents with
  | .null => .ok []
  | .dict entries => compileNamed known entries
  | _ => .error (.nestedKind v.kind)

/-- Puts compiled mappings together, if no chain of those that can be reached leads back to its
start on the same data. -/
def link (properties : Tree) (nested : Nested) : Except CompileFault Transformation :=
  match References.reachable properties nested with
  | .error name => .error (.undefinedReference name)
  | .ok names => match References.findCycle? nested (some names) with
    | some cycle => .error (.cycle cycle)
    | none => .ok ⟨properties, nested⟩

/-- Compiles a document against the converters that are known now. -/
def compile (known : String → Bool) (document : Value) : Except CompileFault Transformation :=
  match document.contents with
  | .dict entries =>
    match (entries.lookup (.str "properties")).getD .null with
    | .null => .error .propertiesMissing
    | spec => do
      let nested ← compileNested known ((entries.lookup (.str "nested")).getD .null)
      let properties ← Tree.compile (Entries.keys nested) known [.key "properties"] spec
      link properties nested
  | _ => .error (.documentKind document.kind)

/-- The compiled rules as data. -/
def summary (t : Transformation) : Value :=
  .dict [(.str "properties", t.properties.toValue),
    (.str "nested", .dict (Tree.entriesToValues t.nested))]

end Transformation

end Reshape
