/-
  Reshape.Number.Decimal: binary64 numbers as text.

  A number is written with its shortest digits: with a point and at least one digit after it while
  the first digit stands for a power of ten from 10^-4 to 10^15, and otherwise as one digit, the
  others after a point, and a signed exponent of at least two digits. Reading takes any decimal
  numeral, with or without point and exponent, rounded to the nearest number, and the words for
  infinity and for no number, in any case.
-/

import Reshape.Number.Integer
import Reshape.Number.Shortest
import Reshape.Text.Blank

namespace Reshape

namespace Double

/-- The digits without closing noughts, and the place of the point counted from their start. -/
def digitsAndPoint (d : Decimal) : List Char × Int :=
  let ds := Number.natText d.significand
  (Text.dropEndWhile (· = '0') ds, ds.length + d.exponent)

def positional (ds : List Char) (point : Int) : List Char :=
  if point ≤ 0 then '0' :: '.' :: List.replicate (-point).toNat '0' ++ ds
  else
    let n := point.toNat
    if ds.length ≤ n then ds ++ List.replicate (n - ds.length) '0' ++ ['.', '0']
    else ds.take n ++ '.' :: ds.drop n

def exponential (ds : List Char) (point : Int) : List Char :=
  let e := point - 1
  let es := Number.natText e.natAbs
  let mantissa := match ds with
    | c :: d :: ds => c :: '.' :: d :: ds
    | ds => ds
  mantissa ++ 'e' :: (if e < 0 then '-' else '+') :: List.replicate (2 - es.length) '0' ++ es

def magnitudeText (rank : Nat) : List Char :=
  if rank = 0 then ['0', '.', '0']
  else
    let (ds, point) := digitsAndPoint (shortest rank)
    if -4 < point ∧ point ≤ 16 then positional ds point else exponential ds point

def text : Double → List Char
  | .nan => ['n', 'a', 'n']
  | .infinite negative => if negative then ['-', 'i', 'n', 'f'] else ['i', 'n', 'f']
  | .finite negative rank =>
    if negative then '-' :: magnitudeText rank else magnitudeText rank

/-! ## Reading -/

def asciiDigits (cs : List Char) : List Char × List Char :=
  (cs.takeWhile Char.isDigit, cs.dropWhile Char.isDigit)

/-- An exponent, mark included, if there is one, and what follows it. -/
def readExponent (cs : List Char) : Option (Int × List Char) :=
  match cs with
  | c :: rest =>
    if c = 'e' ∨ c = 'E' then
      let (negative, body) := Number.signed rest
      match asciiDigits body with
      | ([], _) => none
      | (ds, rest) => some (Number.applySign negative (Number.decimalValue ds), rest)
    else none
  | [] => none

/-- An unsigned numeral that takes up the whole text: digits, of which there is at least one, with
a point anywhere among or beside them, and an exponent. -/
def readMagnitude? (negative : Bool) (cs : List Char) : Option Double :=
  let (whole, rest) := asciiDigits cs
  let (fraction, rest) := match rest with
    | '.' :: rest => asciiDigits rest
    | rest => ([], rest)
  if whole = [] ∧ fraction = [] then none
  else
    let number (e : Int) : Double :=
      ofDecimal negative (Number.decimalValue (whole ++ fraction)) (e - fraction.length)
    match rest with
    | [] => some (number 0)
    | rest => match readExponent rest with
      | some (e, []) => some (number e)
      | _ => none

def wordMatches (word : String) (cs : List Char) : Bool := cs.map Char.toLower == word.toList

/-- A whole text of ASCII characters as a number. -/
def readPlain? (cs : List Char) : Option Double :=
  let (negative, body) := Number.signed cs
  if wordMatches "inf" body || wordMatches "infinity" body then some (.infinite negative)
  else if wordMatches "nan" body then some .nan
  else readMagnitude? negative body

/-- Digits of other scripts become ASCII digits, other blanks become spaces, and other characters
outside ASCII become something that no numeral holds. -/
def plainChar (c : Char) : Char :=
  if c.toNat < 0x80 then c
  else if Text.isBlank c then ' '
  else match Text.digit? c with
    | some d => Nat.digitChar d
    | none => '?'

/-- Reads a text as a number: blanks around it are cut, and single underscores between digits are
passed over. -/
def read? (cs : List Char) : Option Double :=
  let numeral := Text.trimWhile Number.isNumeralBlank (cs.map plainChar)
  (Number.ungrouped? Char.isDigit numeral).bind readPlain?

end Double

end Reshape
