/-
  Reshape.Json.Reader: reading a JSON text as a value.

  The grammar is that of JSON with three more numbers, `NaN`, `Infinity` and `-Infinity`. A whole
  number is an integer, every other number is rounded to binary64. Of two members with one name
  the first gives the place and the last the value. A text that breaks the grammar is refused at
  the first character that cannot be right, and an integer with too many digits is refused for its
  length. Texts hold characters only: a lone surrogate, which an escape can write, is none, and the
  replacement character stands for it.

  A value takes at least one character, and no more than two calls are made per character, one for
  the value and one for the list or object that it opens, so that fuel of twice the length of the
  text and two more is never used up.
-/

import Reshape.Value

namespace Reshape.Json

inductive Defect where
  | byteOrderMark
  | value
  | name
  | colon
  | comma
  | extraData
  | unterminatedString
  | controlCharacter
  | escape
  | unicodeEscape
  deriving DecidableEq, Repr

/-- A place in a text: characters before it, and line and column counted from one. -/
structure Position where
  index : Nat
  line : Nat
  column : Nat
  deriving DecidableEq, Repr

inductive Fault where
  | malformed (defect : Defect) (position : Position)
  | integerTooLong (digits : Nat)
  deriving DecidableEq, Repr

def Defect.message : Defect → String
  | .byteOrderMark => "Unexpected UTF-8 BOM (decode using utf-8-sig)"
  | .value => "Expecting value"
  | .name => "Expecting property name enclosed in double quotes"
  | .colon => "Expecting ':' delimiter"
  | .comma => "Expecting ',' delimiter"
  | .extraData => "Extra data"
  | .unterminatedString => "Unterminated string starting at"
  | .controlCharacter => "Invalid control character at"
  | .escape => "Invalid \\escape"
  | .unicodeEscape => "Invalid \\uXXXX escape"

def Fault.message : Fault → String
  | .malformed defect p => s!"{defect.message}: line {p.line} column {p.column} (char {p.index})"
  | .integerTooLong digits => numeralTooLong digits

def positionAt (cs : List Char) (index : Nat) : Position :=
  let before := cs.take index
  ⟨index, before.count '\n' + 1, (before.reverse.takeWhile (· ≠ '\n')).length + 1⟩

/-- Why reading stopped, with the number of characters left from the offending one on. -/
inductive Stop where
  | at (defect : Defect) (left : Nat)
  | integerTooLong (digits : Nat)

/-- What was read and the rest of the text. -/
abbrev Reads (α : Type) := Except Stop (α × List Char)

def isSpace (c : Char) : Bool := c = ' ' || c = '\t' || c = '\n' || c = '\r'

def skipSpace (cs : List Char) : List Char := cs.dropWhile isSpace

/-! ## Strings -/

/-- The value of four hexadecimal digits, which something must follow. -/
def hexQuad? : List Char → Option (Nat × List Char)
  | a :: b :: c :: d :: e :: rest => do
    let ds ← [a, b, c, d].mapM Number.hexValue?
    pure (Number.ofDigits 16 ds, e :: rest)
  | _ => none

def simpleEscape? : Char → Option Char
  | '"' => some '"'
  | '\\' => some '\\'
  | '/' => some '/'
  | 'b' => some '\x08'
  | 'f' => some '\x0c'
  | 'n' => some '\n'
  | 'r' => some '\r'
  | 't' => some '\t'
  | _ => none

/-- The lower half of a surrogate pair, if it comes next. -/
def lowSurrogate? : List Char → Option (Nat × List Char)
  | '\\' :: 'u' :: cs => do
    let (n, rest) ← hexQuad? cs
    if 0xDC00 ≤ n ∧ n < 0xE000 then some (n, rest) else none
  | _ => none

/-- The character of a code point; the replacement character for a surrogate without its other half. -/
def character (n : Nat) : Char := if 0xD800 ≤ n ∧ n < 0xE000 then '\uFFFD' else Char.ofNat n

/-- The rest of a string after its opening quote; `opening` is the number of characters left from
that quote on. -/
def readString (opening : Nat) : Nat → List Char → Reads (List Char)
  | 0, _ => .error (.at .unterminatedString opening)
  | _ + 1, [] => .error (.at .unterminatedString opening)
  | fuel + 1, c :: cs =>
    let more (d : Char) (rest : List Char) : Reads (List Char) :=
      (readString opening fuel rest).map fun (ds, rest) => (d :: ds, rest)
    if c = '"' then .ok ([], cs)
    else if c = '\\' then
      match cs with
      | [] => .error (.at .unterminatedString opening)
      | 'u' :: digits =>
        match hexQuad? digits with
        | none => .error (.at .unicodeEscape cs.length)
        | some (n, rest) =>
          match (if 0xD800 ≤ n ∧ n < 0xDC00 then lowSurrogate? rest else none) with
          | some (m, rest) => more (character (0x10000 + (n - 0xD800) * 0x400 + (m - 0xDC00))) rest
          | none => more (character n) rest
      | e :: rest => match simpleEscape? e with
        | some d => more d rest
        | none => .error (.at .escape (c :: cs).length)
    else if c.toNat < 0x20 then .error (.at .controlCharacter (c :: cs).length)
    else more c cs

/-! ## Numbers -/

/-- The digits before a point; after a nought there are no more. -/
def takeWhole (cs : List Char) : List Char × List Char :=
  match cs with
  | '0' :: rest => (['0'], rest)
  | cs => Double.asciiDigits cs

/-- A fraction, point included, if the text starts with one. -/
def takeFraction (cs : List Char) : List Char × List Char :=
  match cs with
  | '.' :: rest => match Double.asciiDigits rest with
    | ([], _) => ([], cs)
    | read => read
  | _ => ([], cs)

/-- An exponent, if the text starts with one. -/
def takeExponent (cs : List Char) : Option Int × List Char :=
  match Double.readExponent cs with
  | some (e, rest) => (some e, rest)
  | none => (none, cs)

/-- A number without its sign; `none` if the text does not start with one. -/
def readNumber? (negative : Bool) (cs : List Char) : Option (Reads Value) :=
  let (whole, rest) := takeWhole cs
  if whole = [] then none
  else
    let (fraction, rest) := takeFraction rest
    let (exponent, rest) := takeExponent rest
    match fraction, exponent with
    | [], none =>
      if digitLimit < whole.length then some (.error (.integerTooLong whole.length))
      else some (.ok (.int (Number.applySign negative (Number.decimalValue whole)), rest))
    | _, _ =>
      let e := exponent.getD 0 - fraction.length
      let m := Number.decimalValue (whole ++ fraction)
      some (.ok (.float (Double.ofDecimal negative m e), rest))

/-! ## Values -/

def wordValues : List (String × Value) := [
  ("null", .null), ("true", .bool true), ("false", .bool false), ("NaN", .float .nan),
  ("Infinity", .float (.infinite false)), ("-Infinity", .float (.infinite true))]

def readWord? (cs : List Char) : Option (Value × List Char) :=
  wordValues.findSome? fun (word, v) =>
    if word.toList.isPrefixOf cs then some (v, cs.drop word.length) else none

def readPlain (cs : List Char) : Reads Value :=
  match readWord? cs with
  | some read => .ok read
  | none =>
    let number := match cs with
      | '-' :: rest => readNumber? true rest
      | cs => readNumber? false cs
    number.getD (.error (.at .value cs.length))

mutual
def readValue : Nat → List Char → Except Stop (Value × List Char)
  | 0, cs => .error (.at .value cs.length)
  | fuel + 1, cs =>
    match cs with
    | '"' :: rest =>
      (readString cs.length (rest.length + 1) rest).map fun (s, rest) =>
        (.str (String.ofList s), rest)
    | '[' :: rest =>
      match skipSpace rest with
      | ']' :: rest => .ok (.list [], rest)
      | rest => (readItems fuel rest).map fun (vs, rest) => (.list vs, rest)
    | '{' :: rest =>
      match skipSpace rest with
      | '}' :: rest => .ok (.dict [], rest)
      | rest => (readMembers fuel rest).map fun (ms, rest) => (.dict (Entries.ofList ms), rest)
    | cs => readPlain cs
/-- The items of a list from the first one on, and its closing bracket. -/
def readItems : Nat → List Char → Except Stop (List Value × List Char)
  | 0, cs => .error (.at .value cs.length)
  | fuel + 1, cs => do
    let (v, rest) ← readValue fuel cs
    match skipSpace rest with
    | ']' :: rest => pure ([v], rest)
    | ',' :: rest =>
      let (vs, rest) ← readItems fuel (skipSpace rest)
      pure (v :: vs, rest)
    | rest => .error (.at .comma rest.length)
/-- The members of an object from the first one on, and its closing brace. -/
def readMembers : Nat → List Char → Except Stop (List (Key × Value) × List Char)
  | 0, cs => .error (.at .name cs.length)
  | fuel + 1, cs =>
    match cs with
    | '"' :: rest => do
      let (name, rest) ← readString cs.length (rest.length + 1) rest
      match skipSpace rest with
      | ':' :: rest =>
        let (v, rest) ← readValue fuel (skipSpace rest)
        let member := (Key.str (String.ofList name), v)
        match skipSpace rest with
        | '}' :: rest => pure ([member], rest)
        | ',' :: rest =>
          let (ms, rest) ← readMembers fuel (skipSpace rest)
          pure (member :: ms, rest)
        | rest => .error (.at .comma rest.length)
      | rest => .error (.at .colon rest.length)
    | cs => .error (.at .name cs.length)
end

def readText (cs : List Char) : Except Stop Value :=
  if cs.head? = some '\uFEFF' then .error (.at .byteOrderMark cs.length)
  else match readValue (2 * cs.length + 2) (skipSpace cs) with
    | .error stop => .error stop
    | .ok (v, rest) => match skipSpace rest with
      | [] => .ok v
      | rest => .error (.at .extraData rest.length)

def read (cs : List Char) : Except Fault Value :=
  match readText cs with
  | .ok v => .ok v
  | .error (.at defect left) => .error (.malformed defect (positionAt cs (cs.length - left)))
  | .error (.integerTooLong n) => .error (.integerTooLong n)

end Reshape.Json
