/-
  Reshape.Yaml.Constant: the values of scalars.

  A scalar is a text and a kind. A text that is not written as its kind demands is refused, and so
  is a kind that is none of scalars.
-/

import Reshape.Text.Casing
import Reshape.Text.Pieces
import Reshape.Yaml.Fault
import Reshape.Yaml.Tag

namespace Reshape.Yaml

/-! ## Numbers -/

def withoutUnderscores (cs : List Char) : List Char := cs.filter (· ≠ '_')

/-- A decimal number of a scalar. -/
def decimal (cs : List Char) : Except Fault Int :=
  match Number.readPaddedInt cs with
  | .ok n => .ok n
  | .error .malformed => .error (.integer 10 (String.ofList cs))
  | .error (.tooLong n) => .error (.integerTooLong n)

/-- A number in base 2, 8 or 16. -/
def inBase (base : Nat) (cs : List Char) : Except Fault Int :=
  match Number.readIntIn? base cs with
  | some n => .ok n
  | none => .error (.integer base (String.ofList cs))

def integerOf (text : String) : Except Fault Int :=
  let cs := withoutUnderscores text.toList
  let (negative, body) := Number.signed cs
  let sign (n : Int) : Int := if negative then -n else n
  match cs, body with
  | [], _ | _, [] => .error .emptyNumber
  | _, ['0'] => .ok 0
  | _, '0' :: 'b' :: ds => (inBase 2 ds).map sign
  | _, '0' :: 'x' :: ds => (inBase 16 ds).map sign
  | _, '0' :: ds => (inBase 8 ('0' :: ds)).map sign
  | _, body =>
    if ':' ∈ body then do
      let parts ← (Text.pieces ':' body).mapM decimal
      pure (sign (parts.foldl (fun n d => n * 60 + d) 0))
    else (decimal body).map sign

/-- A number of a scalar in lower case without underscores, and whether it has a minus sign. -/
def floatBody (text : String) : Bool × List Char :=
  Number.signed (Text.lower (withoutUnderscores text.toList))

def isNotANumber (text : String) : Bool := (floatBody text).2 = ".nan".toList

def floatPart (cs : List Char) : Except Fault Double :=
  match Double.read? cs with
  | some x => .ok x
  | none => .error (.float (String.ofList cs))

/-- The sum of the parts in sixties, each weighted and added with rounding, the last part first.
The weights must be in the range of floats. -/
def sumSixties (weight : Nat) (sum : Double) : List Double → Except Fault Double
  | [] => .ok sum
  | x :: xs => match Double.ofInt weight with
    | .infinite _ => .error .tooManySixties
    | w => sumSixties (weight * 60) (sum.add (x.mul w)) xs

def floatOf (text : String) : Except Fault Double :=
  let (negative, body) := floatBody text
  let sign (x : Double) : Double := if negative then x.negate else x
  if withoutUnderscores text.toList = [] then .error .emptyNumber
  else if body = ".inf".toList then .ok (.infinite negative)
  else if isNotANumber text then .ok .nan
  else if ':' ∈ body then do
    let parts ← (Text.pieces ':' body).mapM floatPart
    (sumSixties 1 (Double.zero false) parts.reverse).map sign
  else (floatPart body).map sign

/-! ## Truth values, dates and bytes -/

def truthOf (text : String) : Except Fault Bool :=
  let word := String.ofList (Text.lower text.toList)
  if ["yes", "true", "on"].contains word then .ok true
  else if ["no", "false", "off"].contains word then .ok false
  else .error (.truth word)

def ofCalendar (r : Except CalendarFault α) : Except Fault α :=
  match r with
  | .ok a => .ok a
  | .error fault => .error (.calendar fault)

/-- The minutes ahead of universal time that a zone writes. -/
def zoneOffset (zone : List Char) : Except Fault (Option Int) :=
  match zone with
  | [] => .ok none
  | ['Z'] => .ok (some 0)
  | c :: cs =>
    let hours := Number.decimalValue (cs.takeWhile Char.isDigit)
    let minutes := Number.decimalValue ((cs.dropWhile Char.isDigit).drop 1)
    let total : Int := hours * 60 + minutes
    (ofCalendar (Moment.makeOffset (if c = '-' then -total else total))).map some

def timestampOf (text : String) : Except Fault Scalar := do
  let n (cs : List Char) : Nat := Number.decimalValue cs
  match Plain.date? text.toList with
  | none => throw .notADate
  | some ⟨year, month, day, none⟩ =>
    let d ← ofCalendar (Date.make (n year) (n month) (n day))
    pure (.date d)
  | some ⟨year, month, day, some (hour, minute, second, fraction, zone)⟩ =>
    let micro := (fraction ++ List.replicate 6 '0').take 6
    let offset ← zoneOffset zone
    let d ← ofCalendar (Date.make (n year) (n month) (n day))
    let m ← ofCalendar (Moment.make d (n hour) (n minute) (n second) (n micro) offset)
    pure (.moment m)

def base64Digits : List Char :=
  "ABCDEFGHIJKLMNOPQRSTUVWXYZabcdefghijklmnopqrstuvwxyz0123456789+/".toList

/-- Bytes written in base 64, by groups of four digits; other characters are passed over. The last
group is filled up with equals signs, and what follows them is not read. -/
def bytesOf (group : List Nat) (padding : Nat) : List Char → Except Fault (List UInt8)
  | [] => if group = [] then .ok [] else .error .malformed
  | c :: cs =>
    if c = '=' then
      if 2 ≤ group.length ∧ 4 ≤ group.length + padding + 1 then
        let n := Number.ofDigits 64 (group ++ List.replicate (4 - group.length) 0)
        .ok (([n / 0x10000, n / 0x100 % 0x100].take (group.length - 1)).map UInt8.ofNat)
      else bytesOf group (if 2 ≤ group.length then padding + 1 else padding) cs
    else if c ∈ base64Digits then
      let group := group ++ [base64Digits.idxOf c]
      if group.length = 4 then
        let n := Number.ofDigits 64 group
        (bytesOf [] 0 cs).map fun bs =>
          [n / 0x10000, n / 0x100 % 0x100, n % 0x100].map UInt8.ofNat ++ bs
      else bytesOf group 0 cs
    else bytesOf group padding cs

def scalarValue (tag : Tag) (text : String) : Except Fault Scalar :=
  match tag with
  | .null => .ok .null
  | .bool => (truthOf text).map .bool
  | .int => (integerOf text).map .int
  | .float => (floatOf text).map .float
  | .str => .ok (.str text)
  | .timestamp => timestampOf text
  | .binary =>
    if text.toList.any (0x80 ≤ ·.toNat) then .error .malformed
    else (bytesOf [] 0 text.toList).map .bytes
  | _ => .error .malformed

end Reshape.Yaml
