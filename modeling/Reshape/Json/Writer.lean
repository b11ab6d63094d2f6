/-
  Reshape.Json.Writer: values as JSON texts.

  A value is written on one line, or with every item and member on a line of its own, indented by
  depth. Characters outside ASCII stand as they are or, if the style asks for it, as escapes of
  their UTF-16 units. Numbers outside JSON are written as `NaN`, `Infinity` and `-Infinity`. A key
  that is no text is written as the text of its value; tuples and dates cannot be keys, dates, bytes
  and sets cannot be values, and integers that are too long cannot be written at all. Tuples are
  written as lists. What holds itself cannot be written.
-/

import Reshape.Text.Quoted
import Reshape.Value

namespace Reshape.Json

structure Style where
  /-- Spaces per level, with a line for every item; on one line if absent. -/
  indent : Option Nat
  /-- Whether characters outside ASCII are escaped. -/
  ascii : Bool

def oneLine : Style := ⟨none, false⟩

def indented (ascii : Bool) : Style := ⟨some 2, ascii⟩

inductive WriteFault where
  | unwritable (kind : String)
  | key (kind : String)
  | integerTooLong
  | circular
  deriving DecidableEq, Repr

def WriteFault.message : WriteFault → String
  | .unwritable kind => s!"Object of type {kind} is not JSON serializable"
  | .key kind => s!"keys must be str, int, float, bool or None, not {kind}"
  | .integerTooLong => Reshape.integerTooLong
  | .circular => "Circular reference detected"

def unicodeEscape (n : Nat) : List Char := '\\' :: 'u' :: Text.hexadecimal 4 n

/-- The escapes of the UTF-16 units of a code point. -/
def unitEscapes (n : Nat) : List Char :=
  if n < 0x10000 then unicodeEscape n
  else
    let m := n - 0x10000
    unicodeEscape (0xD800 + m / 0x400) ++ unicodeEscape (0xDC00 + m % 0x400)

def escapeChar (ascii : Bool) (c : Char) : List Char :=
  if c = '"' ∨ c = '\\' then ['\\', c]
  else if c = '\n' then ['\\', 'n']
  else if c = '\r' then ['\\', 'r']
  else if c = '\t' then ['\\', 't']
  else if c = '\x0c' then ['\\', 'f']
  else if c = '\x08' then ['\\', 'b']
  else if c.toNat < 0x20 ∨ (ascii ∧ 0x7F ≤ c.toNat) then unitEscapes c.toNat
  else [c]

def stringText (ascii : Bool) (cs : List Char) : List Char :=
  '"' :: cs.flatMap (escapeChar ascii) ++ ['"']

def floatText : Double → List Char
  | .nan => "NaN".toList
  | .infinite negative => if negative then "-Infinity".toList else "Infinity".toList
  | x => x.text

def intText (n : Int) : Except WriteFault (List Char) :=
  match Number.intText? n with
  | some cs => .ok cs
  | none => .error .integerTooLong

def boolText (b : Bool) : List Char := if b then "true".toList else "false".toList

def scalarText (style : Style) : Scalar → Except WriteFault (List Char)
  | .null => .ok "null".toList
  | .bool b => .ok (boolText b)
  | .int n => intText n
  | .float x => .ok (floatText x)
  | .str s => .ok (stringText style.ascii s.toList)
  | s => .error (.unwritable s.kind)

/-- The name under which a member is written. -/
def keyText (k : Key) : Except WriteFault (List Char) :=
  match k with
  | .scalar (.str s) => .ok s.toList
  | .scalar .null => .ok "null".toList
  | .scalar (.bool b) => .ok (boolText b)
  | .scalar (.int n) => intText n
  | .scalar (.float x) => .ok (floatText x)
  | k => .error (.key k.kind)

/-- A line break before something at this depth; nothing on one line. -/
def lineBreak (style : Style) (depth : Nat) : List Char :=
  match style.indent with
  | none => []
  | some n => '\n' :: List.replicate (n * depth) ' '

/-- Puts items, written at `depth + 1`, between brackets. -/
def bracketed (style : Style) (depth : Nat) (opening closing : Char) (items : List (List Char)) :
    List Char :=
  if items = [] then [opening, closing]
  else
    let separator := match style.indent with
      | none => [',', ' ']
      | some _ => ',' :: lineBreak style (depth + 1)
    opening :: lineBreak style (depth + 1) ++ (items.intersperse separator).flatten ++
      lineBreak style depth ++ [closing]

mutual
def writeAt (style : Style) (depth : Nat) : Value → Except WriteFault (List Char)
  | .scalar s => scalarText style s
  | .seq _ items => (writeItems style (depth + 1) items).map (bracketed style depth '[' ']')
  | .dict entries => (writeMembers style (depth + 1) entries).map (bracketed style depth '{' '}')
  | .set items => .error (.unwritable (Value.set items).kind)
  | .cyclic _ _ view => writeAt style depth view
  | .again _ => .error .circular
def writeItems (style : Style) (depth : Nat) : List Value → Except WriteFault (List (List Char))
  | [] => .ok []
  | v :: vs => do
    let t ← writeAt style depth v
    let ts ← writeItems style depth vs
    pure (t :: ts)
def writeMembers (style : Style) (depth : Nat) :
    List (Key × Value) → Except WriteFault (List (List Char))
  | [] => .ok []
  | (k, v) :: es => do
    let kt ← keyText k
    let vt ← writeAt style depth v
    let ts ← writeMembers style depth es
    pure ((stringText style.ascii kt ++ ':' :: ' ' :: vt) :: ts)
end

def write (style : Style) (v : Value) : Except WriteFault (List Char) := writeAt style 0 v

end Reshape.Json
