/-
  Reshape.Number.Integer: integers in decimal, written and read, up to a bounded length.

  Numbers of more than `digitLimit` digits are neither written nor read. Reading accepts digits of
  any script, an optional sign, and single underscores between digits; leading noughts count as
  digits. In the bases 2, 8 and 16 there is no bound, and the base may be marked.
-/

import Reshape.Text.Blank
import Reshape.Text.Digit

namespace Reshape

/-- Decimal numerals are written and read up to this many digits. -/
def digitLimit : Nat := 4300

inductive NumeralFault where
  | malformed
  | tooLong (digits : Nat)
  deriving DecidableEq, Repr

/-- What is said of a numeral with too many digits. -/
def numeralTooLong (digits : Nat) : String :=
  s!"Exceeds the limit ({digitLimit} digits) for integer string conversion: value has {digits} " ++
    "digits; use sys.set_int_max_str_digits() to increase the limit"

/-- What is said of an integer that is too long to be written. -/
def integerTooLong : String :=
  s!"Exceeds the limit ({digitLimit} digits) for integer string conversion; " ++
    "use sys.set_int_max_str_digits() to increase the limit"

namespace Number

def natText (n : Nat) : List Char := Nat.toDigits 10 n

def intText (n : Int) : List Char :=
  if n < 0 then '-' :: natText n.natAbs else natText n.natAbs

/-- The decimal text of an integer, if it is not too long. -/
def intText? (n : Int) : Option (List Char) :=
  if (natText n.natAbs).length ≤ digitLimit then some (intText n) else none

def ofDigits (base : Nat) (digits : List Nat) : Nat := digits.foldl (fun n d => n * base + d) 0

/-- The value of a text of ASCII digits. -/
def decimalValue (ds : List Char) : Nat := ofDigits 10 (ds.filterMap Text.asciiDigit?)

/-- A sign, if there is one, and the rest; `true` for minus. -/
def signed : List Char → Bool × List Char
  | '-' :: cs => (true, cs)
  | '+' :: cs => (false, cs)
  | cs => (false, cs)

/-- The value of an ASCII hexadecimal digit. -/
def hexValue? (c : Char) : Option Nat :=
  if c.isDigit then some (c.toNat - 0x30)
  else if 'a' ≤ c ∧ c ≤ 'f' then some (c.toNat - 0x57)
  else if 'A' ≤ c ∧ c ≤ 'F' then some (c.toNat - 0x37)
  else none

def applySign (negative : Bool) (n : Nat) : Int := if negative then -(n : Int) else n

/-- Takes the underscores out of a text in which each one stands between two characters of `p`. -/
def ungrouped? (p : Char → Bool) : List Char → Option (List Char)
  | [] => some []
  | '_' :: _ => none
  | [c] => some [c]
  | c :: '_' :: d :: cs =>
    if p c && p d then (ungrouped? p (d :: cs)).map (c :: ·) else none
  | c :: d :: cs => (ungrouped? p (d :: cs)).map (c :: ·)

def isDecimal (c : Char) : Bool := (Text.digit? c).isSome

/-- Reads a whole text as an integer. A text that starts with too many digits is too long,
whatever follows them. -/
def readInt (cs : List Char) : Except NumeralFault Int :=
  let (negative, body) := signed cs
  let inNumeral (c : Char) : Bool := isDecimal c || c = '_'
  match ungrouped? isDecimal (body.takeWhile inNumeral) with
  | none | some [] => .error .malformed
  | some ds =>
    if digitLimit < ds.length then .error (.tooLong ds.length)
    else if body.dropWhile inNumeral ≠ [] then .error .malformed
    else .ok (applySign negative (ofDigits 10 (ds.filterMap Text.digit?)))

/-! ## Blanks and bases -/

/-- The blanks that may stand around a numeral: in ASCII the space and tab to carriage return. -/
def isNumeralBlank (c : Char) : Bool :=
  c = ' ' || (0x9 ≤ c.toNat && c.toNat ≤ 0xD) || (0x80 ≤ c.toNat && Text.isBlank c)

/-- Reads a text as an integer, with blanks around it. -/
def readPaddedInt (cs : List Char) : Except NumeralFault Int :=
  readInt (Text.trimWhile isNumeralBlank cs)

/-- The letters, after a nought, that mark a base. -/
def baseMarks (base : Nat) : List Char :=
  if base = 2 then ['b', 'B'] else if base = 8 then ['o', 'O'] else if base = 16 then ['x', 'X']
  else []

def withoutBaseMark (base : Nat) : List Char → List Char
  | '0' :: c :: cs => if c ∈ baseMarks base then cs else '0' :: c :: cs
  | cs => cs

/-- Reads a text as an integer in a base of at most 16, with blanks around it and with or without
the mark of the base. -/
def readIntIn? (base : Nat) (cs : List Char) : Option Int :=
  let (negative, body) := signed (Text.trimWhile isNumeralBlank cs)
  let digit? (c : Char) : Option Nat := (hexValue? c <|> Text.digit? c).filter (· < base)
  match (withoutBaseMark base body).mapM digit? with
  | some (d :: ds) => some (applySign negative (ofDigits base (d :: ds)))
  | _ => none

end Number

end Reshape
