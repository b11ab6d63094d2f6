/-
  Reshape.Yaml.Tag: kinds of nodes, and which kind a plain scalar is.

  A plain scalar is a truth value, a number, a date, null or a mark of its own if it is written
  like one, and a text otherwise. One line break at its end does not count.
-/

import Reshape.Number.Integer

namespace Reshape.Yaml

inductive Tag where
  | null
  | bool
  | int
  | float
  | str
  | binary
  | timestamp
  | seq
  | map
  | pairs
  | set
  | merge
  | value
  | unknown (uri : String)
  deriving DecidableEq, Repr

def tagNames : List (String × Tag) := [
  ("null", .null), ("bool", .bool), ("int", .int), ("float", .float), ("str", .str),
  ("binary", .binary), ("timestamp", .timestamp), ("seq", .seq), ("map", .map), ("omap", .pairs),
  ("pairs", .pairs), ("set", .set), ("merge", .merge), ("value", .value)]

def standardTags : String := "tag:yaml.org,2002:"

def Tag.ofUri (uri : String) : Tag :=
  match tagNames.find? fun (name, _) => standardTags ++ name = uri with
  | some (_, tag) => tag
  | none => .unknown uri

namespace Plain

/-- A text without the line break at its end, unless it is nothing else. -/
def withoutBreak (cs : List Char) : List Char :=
  if cs.length ≠ 1 ∧ cs.getLast? = some '\n' then cs.dropLast else cs

/-! ## Shapes of numbers -/

def isDigit (c : Char) : Bool := c.isDigit

def isGrouped (c : Char) : Bool := c.isDigit || c = '_'

/-- Without a sign. -/
def unsigned (cs : List Char) : List Char := (Number.signed cs).2

/-- One or two digits below 60 after a colon, any number of times; the rest. -/
def sixties : List Char → List Char
  | ':' :: c :: d :: cs =>
    if '0' ≤ c ∧ c ≤ '5' ∧ d.isDigit then sixties cs
    else if c.isDigit then sixties (d :: cs)
    else ':' :: c :: d :: cs
  | [':', c] => if c.isDigit then [] else [':', c]
  | cs => cs

/-- At least one group of sixty, and nothing but a rest that satisfies `p`. -/
def hasSixties (p : List Char → Bool) (cs : List Char) : Bool :=
  let rest := sixties cs
  rest.length < cs.length && p rest

/-- An exponent with its sign, or nothing. -/
def isExponent : List Char → Bool
  | [] => true
  | e :: s :: d :: ds => (e = 'e' || e = 'E') && (s = '+' || s = '-') && (d :: ds).all isDigit
  | _ => false

/-- A point, grouped digits and an exponent. -/
def isFraction : List Char → Bool
  | '.' :: cs => isExponent (cs.dropWhile isGrouped)
  | _ => false

/-- A point and grouped digits. -/
def isShortFraction : List Char → Bool
  | '.' :: cs => cs.all isGrouped
  | _ => false

def isFloat (cs : List Char) : Bool :=
  let body := unsigned cs
  let word := String.ofList body
  (body.head?.any isDigit &&
      (isFraction (body.dropWhile isGrouped) ||
        hasSixties isShortFraction (body.dropWhile isGrouped))) ||
    (match cs with
      | '.' :: c :: rest => c.isDigit && isExponent (rest.dropWhile isGrouped)
      | _ => false) ||
    [".inf", ".Inf", ".INF"].contains word ||
    [".nan", ".NaN", ".NAN"].contains (String.ofList cs)

def isInt (cs : List Char) : Bool :=
  match unsigned cs with
  | ['0'] => true
  | '0' :: 'b' :: ds => ds ≠ [] && ds.all fun c => c = '0' || c = '1' || c = '_'
  | '0' :: 'x' :: ds => ds ≠ [] && ds.all fun c => (Number.hexValue? c).isSome || c = '_'
  | '0' :: ds => ds.all fun c => ('0' ≤ c && c ≤ '7') || c = '_'
  | c :: ds =>
    let rest := ds.dropWhile isGrouped
    c.isDigit && (rest = [] || hasSixties (· = []) rest)
  | [] => false

/-! ## Shapes of dates -/

/-- Takes digits, at least `least` and at most `most`. -/
def digits? (least most : Nat) (cs : List Char) : Option (List Char × List Char) :=
  let ds := (cs.take most).takeWhile isDigit
  if ds.length < least then none else some (ds, cs.drop ds.length)

def expect? (c : Char) : List Char → Option (List Char)
  | d :: cs => if c = d then some cs else none
  | [] => none

/-- The parts of a written date, and of the time of day if there is one. -/
structure DateText where
  year : List Char
  month : List Char
  day : List Char
  /-- Hour, minute, second, fraction and zone. -/
  time : Option (List Char × List Char × List Char × List Char × List Char)

/-- A zone: nothing, `Z`, or a sign with hours and perhaps minutes. -/
def isZone : List Char → Bool
  | [] => true
  | ['Z'] => true
  | c :: cs =>
    (c = '+' || c = '-') && (match digits? 1 2 cs with
      | some (_, []) => true
      | some (_, ':' :: rest) => (match digits? 2 2 rest with
        | some (_, []) => true
        | _ => false)
      | _ => false)

def isDateBlank (c : Char) : Bool := c = ' ' || c = '\t'

/-- Past the mark between a date and a time. -/
def dateGap? : List Char → Option (List Char)
  | 'T' :: cs => some cs
  | 't' :: cs => some cs
  | c :: cs => if isDateBlank c then some (cs.dropWhile isDateBlank) else none
  | [] => none

def time? (cs : List Char) :
    Option (List Char × List Char × List Char × List Char × List Char) := do
  let (hour, cs) ← digits? 1 2 (← dateGap? cs)
  let (minute, cs) ← digits? 2 2 (← expect? ':' cs)
  let (second, cs) ← digits? 2 2 (← expect? ':' cs)
  let (fraction, cs) := match cs with
    | '.' :: cs => (cs.takeWhile isDigit, cs.dropWhile isDigit)
    | cs => ([], cs)
  let zone := cs.dropWhile isDateBlank
  if isZone zone && (zone ≠ [] || cs = []) then some (hour, minute, second, fraction, zone)
  else none

/-- A date, whose month and day may have one digit, perhaps with a time. -/
def date? (cs : List Char) : Option DateText := do
  let (year, cs) ← digits? 4 4 (withoutBreak cs)
  let (month, cs) ← digits? 1 2 (← expect? '-' cs)
  let (day, cs) ← digits? 1 2 (← expect? '-' cs)
  if cs = [] then some ⟨year, month, day, none⟩
  else do
    let t ← time? cs
    some ⟨year, month, day, some t⟩

/-- Whether a plain scalar is a date: without a time, month and day need two digits. -/
def isDate (cs : List Char) : Bool :=
  match date? cs with
  | some d => d.time.isSome || (d.month.length = 2 && d.day.length = 2)
  | none => false

def truths : List String := ["yes", "Yes", "YES", "true", "True", "TRUE", "on", "On", "ON"]

def falsehoods : List String := ["no", "No", "NO", "false", "False", "FALSE", "off", "Off", "OFF"]

def nulls : List String := ["", "~", "null", "Null", "NULL"]

end Plain

open Plain

/-- What kind of value a plain scalar is. -/
def Tag.ofPlain (text : String) : Tag :=
  let cs := withoutBreak text.toList
  let text := String.ofList cs
  if truths.contains text || falsehoods.contains text then .bool
  else if isFloat cs then .float
  else if isInt cs then .int
  else if text = "<<" then .merge
  else if nulls.contains text then .null
  else if isDate cs then .timestamp
  else if text = "=" then .value
  else .str

end Reshape.Yaml
