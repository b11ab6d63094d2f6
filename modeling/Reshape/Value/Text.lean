/-
  Reshape.Value.Text: values as text.

  A text has two written forms: itself, when it stands alone, and a quoted literal, when it stands
  inside a container or in a message. Dates have two as well. All other values are written alike
  in both places. A container that comes again inside itself is three dots in its brackets there. A
  value that holds an integer too long to be written has no text.
-/

import Reshape.Text.Quoted
import Reshape.Value

namespace Reshape

open Text Calendar

namespace Scalar

def literal? : Scalar → Option (List Char)
  | .null => some "None".toList
  | .bool b => some (if b then "True".toList else "False".toList)
  | .int n => Number.intText? n
  | .float x => some x.text
  | .str s => some (quotedChars s.toList)
  | .date d => some d.literal
  | .moment m => some m.literal
  | .bytes bs => some (quotedBytes bs)

def text? : Scalar → Option (List Char)
  | .str s => some s.toList
  | .date d => some d.text
  | .moment m => some m.text
  | s => s.literal?

end Scalar

def tupleText (items : List (List Char)) : List Char :=
  match items with
  | [item] => '(' :: item ++ [',', ')']
  | items => '(' :: listed items ++ [')']

def listText (items : List (List Char)) : List Char := '[' :: listed items ++ [']']

def setText (items : List (List Char)) : List Char :=
  if items = [] then "set()".toList else '\x7b' :: listed items ++ ['\x7d']

def Shape.text : Shape → List Char
  | .seq .list => "[...]".toList
  | .seq .tuple => "(...)".toList
  | .dict => "\x7b...\x7d".toList

mutual
def Key.literal? : Key → Option (List Char)
  | .scalar s => s.literal?
  | .tuple items => (Key.literals? items).map tupleText
def Key.literals? : List Key → Option (List (List Char))
  | [] => some []
  | k :: ks => do
    let t ← k.literal?
    let ts ← Key.literals? ks
    pure (t :: ts)
end

mutual
def Value.literal? : Value → Option (List Char)
  | .scalar s => s.literal?
  | .seq form items => (Value.literals? items).map fun ts =>
    match form with
    | .list => listText ts
    | .tuple => tupleText ts
  | .dict entries => (Value.entryLiterals? entries).map fun ts => '{' :: listed ts ++ ['}']
  | .set items => (Key.literals? items).map setText
  | .cyclic _ _ view => view.literal?
  | .again shape => some shape.text
def Value.literals? : List Value → Option (List (List Char))
  | [] => some []
  | v :: vs => do
    let t ← v.literal?
    let ts ← Value.literals? vs
    pure (t :: ts)
def Value.entryLiterals? : List (Key × Value) → Option (List (List Char))
  | [] => some []
  | (k, v) :: es => do
    let kt ← k.literal?
    let vt ← v.literal?
    let ts ← Value.entryLiterals? es
    pure ((kt ++ ':' :: ' ' :: vt) :: ts)
end

def Key.text? : Key → Option (List Char)
  | .scalar s => s.text?
  | k => k.literal?

def Value.text? : Value → Option (List Char)
  | .scalar s => s.text?
  | v => v.literal?

/-- The text of a key as a string. -/
def Key.string? (k : Key) : Option String := k.text?.map String.ofList

def Value.string? (v : Value) : Option String := v.text?.map String.ofList

end Reshape
