/-
  Reshape.Converter.Builtin: the converters that come with the program.

  Casts: `any`, `str`, `int`, `float`, `bool`, `json`, `list`. Changes of texts, which leave every
  other value alone: `strip`, `lower`, `upper`, `slug`.
-/

import Reshape.Converter
import Reshape.Text.Pieces
import Reshape.Text.Slug
import Reshape.Value.Text
import Reshape.Value.Web

namespace Reshape.Builtin

def readInteger (s : String) : Except ConversionFault Value :=
  let cs := Text.strip s.toList
  match Number.readInt cs with
  | .ok n => .ok (.int n)
  | .error .malformed => .error (.integerText (String.ofList cs))
  | .error (.tooLong n) => .error (.integerTextTooLong n)

/-- Bytes as text: one outside ASCII becomes something that no numeral holds. -/
def asciiText (bs : List UInt8) : List Char :=
  bs.map fun b => if b < 0x80 then Char.ofNat b.toNat else '?'

def integerOfBytes (bs : List UInt8) : Except ConversionFault Value :=
  match Number.readPaddedInt (asciiText bs) with
  | .ok n => .ok (.int n)
  | .error .malformed => .error (.integerBytes bs)
  | .error (.tooLong n) => .error (.integerTextTooLong n)

def asInteger : Converter
  | .bool b => .ok (.int (if b then 1 else 0))
  | .int n => .ok (.int n)
  | .float x => match x, x.truncated? with
    | .nan, _ => .error .notANumber
    | _, some n => .ok (.int n)
    | _, none => .error .infinity
  | .str s => readInteger s
  | .scalar (.bytes bs) => integerOfBytes bs
  | v => .error (.notIntegral v.qualifiedKind)

def floatOfInt (n : Int) : Except ConversionFault Value :=
  match Double.ofInt n with
  | .infinite _ => .error .integerTooLarge
  | x => .ok (.float x)

def asFloat : Converter
  | .bool b => floatOfInt (if b then 1 else 0)
  | .int n => floatOfInt n
  | .float x => .ok (.float x)
  | .str s => match Double.read? s.toList with
    | some x => .ok (.float x)
    | none => .error (.floatText s)
  | .scalar (.bytes bs) => match Double.read? (asciiText bs) with
    | some x => .ok (.float x)
    | none => .error (.floatBytes bs)
  | v => .error (.notNumeric v.qualifiedKind)

def textOf (v : Value) : Except ConversionFault (List Char) :=
  match v.text? with
  | some cs => .ok cs
  | none => .error .unwritable

def asText : Converter := fun v => (textOf v).map fun cs => .str (String.ofList cs)

/-- The texts that count as true, whatever their case. -/
def truths : List String := ["1", "true", "t", "yes", "y", "on"]

def asTruth : Converter
  | .bool b => .ok (.bool b)
  | v => (textOf v).map fun cs =>
    .bool (truths.contains (String.ofList (Text.lower (Text.strip cs))))

def fromJson : Converter
  | .str s => match Json.read s.toList with
    | .ok v => .ok v
    | .error fault => .error (.json fault)
  | v => .ok v

def delimiter : Char := ';'

/-- The non-blank pieces of a text between semicolons, without the blanks around them. -/
def listed (cs : List Char) : List (List Char) :=
  ((Text.pieces delimiter cs).map Text.strip).filter (· ≠ [])

def asList : Converter := fun v =>
  match v.contents with
  | .seq .list _ => .ok v
  | .seq .tuple items => .ok (.list items)
  | _ => (textOf v).map fun cs => .list ((listed cs).map fun p => .str (String.ofList p))

def onText (f : List Char → List Char) : Converter
  | .str s => .ok (.str (String.ofList (f s.toList)))
  | v => .ok v

def table : List (String × Converter) := [
  ("any", .ok), ("str", asText), ("int", asInteger), ("float", asFloat), ("bool", asTruth),
  ("json", fromJson), ("list", asList), ("strip", onText Text.strip),
  ("lower", onText Text.lower), ("upper", onText Text.upper), ("slug", onText Text.slug)]

def names : List String := (Entries.keys table).mergeSort

end Reshape.Builtin
