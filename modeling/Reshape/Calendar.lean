/-
  Reshape.Calendar: days and moments of the Gregorian calendar, and their text.

  A moment is a day and a time of day down to the microsecond, with or without its distance from
  universal time. `Date.make` and `Moment.make` accept exactly the days and times that exist, in
  the years 1 to 9999, and offsets of less than a day.
-/

import Reshape.Number.Integer

namespace Reshape

structure Date where
  year : Nat
  month : Nat
  day : Nat
  deriving DecidableEq, Repr

structure Moment where
  date : Date
  hour : Nat
  minute : Nat
  second : Nat
  microsecond : Nat
  /-- Minutes ahead of universal time. -/
  offset : Option Int
  deriving DecidableEq, Repr

inductive CalendarFault where
  | year (n : Nat)
  | month
  | day
  | hour
  | minute
  | second
  | offset (minutes : Int)
  deriving DecidableEq, Repr

namespace Calendar

def isLeap (year : Nat) : Bool := year % 4 = 0 && (year % 100 ≠ 0 || year % 400 = 0)

def daysIn (year month : Nat) : Nat :=
  if month = 2 then (if isLeap year then 29 else 28)
  else if month ∈ [4, 6, 9, 11] then 30 else 31

def padded (width n : Nat) : List Char :=
  let ds := Number.natText n
  List.replicate (width - ds.length) '0' ++ ds

def listed (parts : List (List Char)) : List Char := (parts.intersperse [',', ' ']).flatten

/-- A length of time of whole minutes, as days and seconds. -/
def minutesLiteral (minutes : Int) : List Char :=
  let days := minutes.fdiv 1440
  let seconds := minutes.fmod 1440 * 60
  let part (name : String) (n : Int) : List (List Char) :=
    if n = 0 then [] else [name.toList ++ Number.intText n]
  let parts := part "days=" days ++ part "seconds=" seconds
  "datetime.timedelta(".toList ++ (if parts = [] then ['0'] else listed parts) ++ [')']

end Calendar

open Calendar

namespace Date

def make (year month day : Nat) : Except CalendarFault Date :=
  if year < 1 ∨ 9999 < year then .error (.year year)
  else if month < 1 ∨ 12 < month then .error .month
  else if day < 1 ∨ daysIn year month < day then .error .day
  else .ok ⟨year, month, day⟩

/-- The number of the day, from the first one on. -/
def ordinal (d : Date) : Nat :=
  let years := d.year - 1
  let before := years * 365 + years / 4 - years / 100 + years / 400
  (List.range (d.month - 1)).foldl (fun days m => days + daysIn d.year (m + 1)) before + d.day

def text (d : Date) : List Char :=
  padded 4 d.year ++ '-' :: padded 2 d.month ++ '-' :: padded 2 d.day

def literal (d : Date) : List Char :=
  "datetime.date(".toList ++ listed ([d.year, d.month, d.day].map Number.natText) ++ [')']

end Date

namespace Moment

def make (date : Date) (hour minute second microsecond : Nat) (offset : Option Int) :
    Except CalendarFault Moment :=
  if 23 < hour then .error .hour
  else if 59 < minute then .error .minute
  else if 59 < second then .error .second
  else .ok ⟨date, hour, minute, second, microsecond, offset⟩

/-- An offset of this many minutes, which must be less than a day. -/
def makeOffset (minutes : Int) : Except CalendarFault Int :=
  if minutes.natAbs < 1440 then .ok minutes else .error (.offset minutes)

/-- Microseconds of universal time, if the distance from it is known. -/
def instant? (m : Moment) : Option Int :=
  m.offset.map fun offset =>
    ((((m.date.ordinal * 24 + m.hour : Nat) * 60 + m.minute - offset) * 60 + m.second) * 1000000 +
      m.microsecond : Int)

def offsetText (minutes : Int) : List Char :=
  (if minutes < 0 then '-' else '+') :: padded 2 (minutes.natAbs / 60) ++
    ':' :: padded 2 (minutes.natAbs % 60)

/-- How much of a moment is written. -/
inductive Precision where
  | days
  | seconds
  | milliseconds
  | microseconds
  deriving DecidableEq, Repr

/-- The day and the time of day, as far as it is asked for. -/
def textTo (precision : Precision) (m : Moment) : List Char :=
  let clock :=
    ' ' :: padded 2 m.hour ++ ':' :: padded 2 m.minute ++ ':' :: padded 2 m.second
  m.date.text ++ match precision with
    | .days => []
    | .seconds => clock
    | .milliseconds => clock ++ '.' :: padded 3 (m.microsecond / 1000)
    | .microseconds => clock ++ '.' :: padded 6 m.microsecond

/-- The least precision that leaves nothing of these moments out. -/
def precisionOf (ms : List Moment) : Precision :=
  if ms.any fun m => m.microsecond % 1000 ≠ 0 then .microseconds
  else if ms.any fun m => m.microsecond ≠ 0 then .milliseconds
  else if ms.any fun m => m.hour ≠ 0 || m.minute ≠ 0 || m.second ≠ 0 then .seconds
  else .days

def text (m : Moment) : List Char :=
  m.textTo (if m.microsecond = 0 then .seconds else .microseconds) ++
    (m.offset.map offsetText).getD []

def zoneLiteral (minutes : Int) : List Char :=
  if minutes = 0 then "datetime.timezone.utc".toList
  else "datetime.timezone(".toList ++ minutesLiteral minutes ++ [')']

def literal (m : Moment) : List Char :=
  let optional := if m.microsecond ≠ 0 then [m.second, m.microsecond]
    else if m.second ≠ 0 then [m.second] else []
  let fields := [m.date.year, m.date.month, m.date.day, m.hour, m.minute] ++ optional
  let zone := (m.offset.map fun z => ["tzinfo=".toList ++ zoneLiteral z]).getD []
  "datetime.datetime(".toList ++ listed (fields.map Number.natText ++ zone) ++ [')']

end Moment

def CalendarFault.message : CalendarFault → String
  | .year n => s!"year {n} is out of range"
  | .month => "month must be in 1..12"
  | .day => "day is out of range for month"
  | .hour => "hour must be in 0..23"
  | .minute => "minute must be in 0..59"
  | .second => "second must be in 0..59"
  | .offset minutes =>
    "offset must be a timedelta strictly between -timedelta(hours=24) and " ++
      "timedelta(hours=24), not " ++ String.ofList (minutesLiteral minutes) ++ "."

end Reshape
