/-
  Reshape.Rule: rules, the leaves of a mapping.

  A rule `path:target` says which part of the input to take and what to make of it. The path is a
  list of segments, written with dots; the target names a converter or, when it starts with `$`, a
  nested mapping; `[]` after it means that the part is a sequence whose elements are resolved one
  by one. A rule can be read only if its target is known.
-/

import Reshape.Registry
import Reshape.Text.Pieces

namespace Reshape

structure Rule where
  path : List String
  target : String
  isArray : Bool
  deriving DecidableEq, Repr

inductive RuleFault where
  | malformed
  | undefinedNested (name : String)
  | undefinedConverter (name : String)
  deriving DecidableEq, Repr

/-- What is wrong with a rule, and where it stands if that is known. -/
def RuleFault.message (place text : String) (fault : RuleFault) : String :=
  let whereText := if place = "" then "" else " at " ++ place
  match fault with
  | .malformed => s!"Malformed mapping rule{whereText}: {Text.quoted text}"
  | .undefinedNested name => s!"Undefined nested mapping{whereText}: {name}"
  | .undefinedConverter name => s!"Undefined datatype{whereText}: {Text.quoted name}"

namespace Rule

def isNested (r : Rule) : Bool := isNestedName r.target

def text (r : Rule) : String :=
  Text.join "." r.path ++ ":" ++ r.target ++ (if r.isArray then "[]" else "")

/-- The target without one closing `[]`, and whether there was one. -/
def arraySuffix (cs : List Char) : List Char × Bool :=
  match cs.reverse with
  | ']' :: '[' :: rest => (rest.reverse, true)
  | _ => (cs, false)

/-- Reads a rule whose target must be one of these nested names or a known converter. -/
def parse (names : List String) (known : String → Bool) (text : String) : Except RuleFault Rule :=
  match Text.splitAt ':' text with
  | [path, target] =>
    if path = "" then .error .malformed
    else
      let (cs, isArray) := arraySuffix target.toList
      let name := String.ofList cs
      let rule : Rule := ⟨Text.splitAt '.' path, name, isArray⟩
      if isNestedName name then
        if name ∈ names then .ok rule else .error (.undefinedNested name)
      else if known name then .ok rule
      else .error (.undefinedConverter name)
  | _ => .error .malformed

end Rule

end Reshape
