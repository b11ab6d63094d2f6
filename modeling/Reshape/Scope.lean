/-
  Reshape.Scope: where paths are read from.

  A context is the value in scope and the values in scope around it, the input document outermost.
  A path is read from a context segment by segment. `$root` goes to the input document, from
  anywhere. `$parent` goes to the enclosing scope, as long as no part of the data has been taken.
  Every other segment takes a part: the entry of a dictionary under that text, or the element of a
  sequence whose index it writes in ASCII digits. What is not there is absent, which is no error.
-/

import Reshape.References
import Reshape.Value.Web

namespace Reshape

/-- A segment has too many digits to be an index. -/
structure IndexFault where
  digits : Nat
  deriving DecidableEq, Repr

namespace Value

/-- The index that a segment writes, if it is made of ASCII digits only. -/
def index? (segment : String) : Option (Except IndexFault Nat) :=
  let cs := segment.toList
  if cs ≠ [] ∧ cs.all Char.isDigit then
    some (if digitLimit < cs.length then .error ⟨cs.length⟩ else .ok (Number.decimalValue cs))
  else none

/-- The part of a value under a segment, if it has one. -/
def part (segment : String) (v : Value) : Except IndexFault (Option Value) :=
  match v.contents with
  | .dict entries => .ok (entries.lookup (.str segment))
  | .seq _ items => match index? segment with
    | some (.ok i) => .ok items[i]?
    | some (.error fault) => .error fault
    | none => .ok none
  | _ => .ok none

end Value

structure Context where
  scope : Value
  /-- The scopes around this one, the nearest first. -/
  enclosing : List Value
  deriving Repr

namespace Context

def top (data : Value) : Context := ⟨data, []⟩

/-- The context of a nested mapping that is entered with `value`. -/
def enter (c : Context) (value : Value) : Context := ⟨value, c.scope :: c.enclosing⟩

/-- The input document. -/
def root (c : Context) : Value := c.enclosing.getLastD c.scope

/-- All scopes, this one first and the input document last. -/
def scopes (c : Context) : List Value := c.scope :: c.enclosing

end Context

/-- Where reading a path has got to: a context, or data taken from one. -/
inductive Cursor where
  | context (c : Context)
  | data (v : Value)
  deriving Repr

namespace Cursor

def value : Cursor → Value
  | .context c => c.scope
  | .data v => v

def up : Cursor → Option Cursor
  | .context ⟨_, scope :: enclosing⟩ => some (.context ⟨scope, enclosing⟩)
  | _ => none

def step (root : Value) (cursor : Cursor) (segment : String) : Except IndexFault (Option Cursor) :=
  if segment = rootSegment then .ok (some (.context (Context.top root)))
  else if segment = parentSegment then .ok cursor.up
  else (cursor.value.part segment).map fun v => v.map Cursor.data

def walk (root : Value) (cursor : Cursor) : List String → Except IndexFault (Option Cursor)
  | [] => .ok (some cursor)
  | segment :: path => match cursor.step root segment with
    | .error fault => .error fault
    | .ok none => .ok none
    | .ok (some cursor) => cursor.walk root path

end Cursor

/-- What a path leads to from a context; `none` if it is absent. -/
def Context.extract (c : Context) (path : List String) : Except IndexFault (Option Value) :=
  (Cursor.walk c.root (.context c) path).map fun cursor => cursor.map Cursor.value

end Reshape
