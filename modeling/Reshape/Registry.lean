/-
  Reshape.Registry: the table of converters that rules can name.

  A name is a non-empty text that does not start with `$`, which marks nested mappings, and what is
  registered under it must be a converter. Registering a name again replaces its converter; there
  is no removal. A batch is registered entry by entry up to the first one that is refused.
  - `Registry.mem_names`: the names are those under which there is a converter.
-/

import Reshape.Converter
import Reshape.Value.Text

namespace Reshape

structure Registry where
  entries : List (String × Converter)

/-- What someone offers as a converter: one, or a value that is none. -/
inductive Candidate where
  | converter (f : Converter)
  | value (v : Value)

inductive RegistryFault where
  | notAName (v : Value)
  | reserved (name : String)
  | notCallable (name kind : String)
  deriving Repr

def RegistryFault.message : RegistryFault → String
  | .notAName v =>
    (v.literal?.map fun cs =>
      "Converter name must be a non-empty string, got " ++ String.ofList cs).getD integerTooLong
  | .reserved name => s!"Converter name '{name}' clashes with nested mapping prefix '$'"
  | .notCallable name kind => s!"Converter '{name}' must be callable, got {kind}"

/-- Whether a name is that of a nested mapping. -/
def isNestedName (name : String) : Bool := name.toList.head? = some '$'

namespace Registry

def empty : Registry := ⟨[]⟩

def find? (r : Registry) (name : String) : Option Converter := r.entries.lookup name

def has (r : Registry) (name : String) : Bool := (r.find? name).isSome

/-- The names in order of their code points. -/
def names (r : Registry) : List String := (Entries.keys r.entries).mergeSort

def size (r : Registry) : Nat := r.entries.length

theorem mem_names {r : Registry} {name : String} : name ∈ r.names ↔ r.has name = true := by
  unfold names has find?
  rw [List.mem_mergeSort, Entries.mem_keys, List.lookup_isSome_iff]
  simp

def register (r : Registry) (name : Value) (c : Candidate) : Except RegistryFault Registry :=
  match name with
  | .str s =>
    if s = "" then .error (.notAName name)
    else if isNestedName s then .error (.reserved s)
    else match c with
      | .value v => .error (.notCallable s v.kind)
      | .converter f => .ok ⟨Entries.put s f r.entries⟩
  | name => .error (.notAName name)

/-- Registers a batch up to the first refused entry, and says why that one is refused. -/
def registerAll (r : Registry) : List (Key × Candidate) → Registry × Option RegistryFault
  | [] => (r, none)
  | (name, c) :: rest => match r.register name.toValue c with
    | .ok r' => r'.registerAll rest
    | .error fault => (r, some fault)

/-- The registry of a table of converters. -/
def ofTable (table : List (String × Converter)) : Registry := ⟨Entries.ofList table⟩

end Registry

end Reshape
