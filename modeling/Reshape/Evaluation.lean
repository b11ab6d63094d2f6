/-
  Reshape.Evaluation: applying a compiled transformation to an input.

  A tree is evaluated in a context, part by part from left to right. A rule extracts a value; what
  is absent or null gives null, or the empty list for an array rule. A value that is there is
  resolved: by the converter that the rule names, or by the nested mapping that it names, which is
  evaluated with the value as its scope. An array rule resolves the elements of a sequence, null
  ones included, and gives the empty list for anything else. A converter that is not registered
  counts as one that gives null.

  A run keeps what happened in it, up to its end or the fault that ended it: every nested mapping
  entered, every converter called and every call that found no converter. Nested mappings can be
  open inside each other up to a depth that is given with the run.
-/

import Reshape.Scope
import Reshape.Transformation

namespace Reshape

inductive EvaluationFault where
  | indexTooLong (digits : Nat)
  | undefinedNested (name : String)
  | tooDeep
  | conversion (fault : ConversionFault)
  deriving DecidableEq, Repr

def EvaluationFault.message : EvaluationFault → String
  | .indexTooLong digits => numeralTooLong digits
  | .undefinedNested name => Text.quoted name
  | .tooDeep => "maximum recursion depth exceeded"
  | .conversion fault => fault.message

inductive Event where
  | entered (name : String) (context : Context)
  | called (name : String) (argument : Value)
  | missing (name : String) (argument : Value)
  deriving Repr

/-- What happened, and how it ended. -/
structure Run (α : Type) where
  events : List Event
  outcome : Except EvaluationFault α

namespace Run

def fail (fault : EvaluationFault) : Run α := ⟨[], .error fault⟩

def bind (r : Run α) (f : α → Run β) : Run β :=
  match r.outcome with
  | .error fault => ⟨r.events, .error fault⟩
  | .ok a => ⟨r.events ++ (f a).events, (f a).outcome⟩

instance : Monad Run where
  pure a := ⟨[], .ok a⟩
  bind := bind

/-- Puts an event before everything that happens in a run. -/
def after (event : Event) (r : Run α) : Run α := ⟨event :: r.events, r.outcome⟩

/-- Runs for all elements from left to right, up to the first fault. -/
def forEach (f : α → Run β) : List α → Run (List β)
  | [] => pure []
  | a :: as => do
    let b ← f a
    let bs ← forEach f as
    pure (b :: bs)

end Run

/-- Resolving one value: with a nested mapping entered by `enter`, or a converter. -/
def resolve (registry : Registry) (enter : String → Context → Run Value) (context : Context)
    (target : String) (value : Value) : Run Value :=
  if isNestedName target then enter target (context.enter value)
  else match registry.find? target with
    | none => (pure .null : Run Value).after (.missing target value)
    | some f =>
      let outcome := match f value with
        | .ok v => .ok v
        | .error fault => .error (.conversion fault)
      (⟨[], outcome⟩ : Run Value).after (.called target value)

def Rule.evaluate (registry : Registry) (enter : String → Context → Run Value) (context : Context)
    (rule : Rule) : Run Value :=
  let resolveOne := resolve registry enter context rule.target
  match context.extract rule.path with
  | .error fault => Run.fail (.indexTooLong fault.digits)
  | .ok none | .ok (some .null) => pure (if rule.isArray then .list [] else .null)
  | .ok (some value) =>
    if rule.isArray then
      match value.contents with
      | .seq _ items => do
        let values ← Run.forEach resolveOne items
        pure (.list values)
      | _ => pure (.list [])
    else resolveOne value

mutual
def Tree.evaluate (registry : Registry) (enter : String → Context → Run Value)
    (context : Context) : Tree → Run Value
  | .leaf rule => rule.evaluate registry enter context
  | .list items => do
    let values ← Tree.evaluateItems registry enter context items
    pure (.list values)
  | .dict entries => do
    let values ← Tree.evaluateEntries registry enter context entries
    pure (.dict values)
def Tree.evaluateItems (registry : Registry) (enter : String → Context → Run Value)
    (context : Context) : List Tree → Run (List Value)
  | [] => pure []
  | t :: ts => do
    let v ← t.evaluate registry enter context
    let vs ← Tree.evaluateItems registry enter context ts
    pure (v :: vs)
def Tree.evaluateEntries (registry : Registry) (enter : String → Context → Run Value)
    (context : Context) : List (String × Tree) → Run (List (Key × Value))
  | [] => pure []
  | (k, t) :: es => do
    let v ← t.evaluate registry enter context
    let vs ← Tree.evaluateEntries registry enter context es
    pure ((.str k, v) :: vs)
end

/-- Evaluating a nested mapping in a context, with at most `depth` of them open inside each other,
this one included. -/
def enterNested (registry : Registry) (nested : Nested) : Nat → String → Context → Run Value
  | depth, name, context => match nested.lookup name with
    | none => Run.fail (.undefinedNested name)
    | some t => match depth with
      | 0 => Run.fail .tooDeep
      | depth + 1 =>
        (t.evaluate registry (enterNested registry nested depth) context).after
          (.entered name context)

namespace Transformation

/-- The run of a transformation on an input, to the given depth. -/
def runWithin (depth : Nat) (t : Transformation) (registry : Registry) (data : Value) : Run Value :=
  t.properties.evaluate registry (enterNested registry t.nested depth) (Context.top data)

/-- What comes of the run. -/
def evaluate (depth : Nat) (t : Transformation) (registry : Registry) (data : Value) :
    Except EvaluationFault Value := (t.runWithin depth registry data).outcome

end Transformation

end Reshape
