/-
  Reshape.Log: what is logged, and when it is written.

  All loggers are called `maptools` or stand below it. They share one level and one handler, which
  are set up when a logger is first asked for, the level from the environment. A message is written
  if its level is positive and not below the shared level; while that is zero, the level outside
  (30) counts instead.

  Compiling logs one record; evaluating logs one record for every converter that is missing; a
  command that has transformed all its inputs logs one record.
-/

import Reshape.Evaluation
import Reshape.Text.Blank
import Reshape.Text.Casing

namespace Reshape.Log

def rootName : String := "maptools"

/-- Names of levels, the one to be written first. -/
def levelNames : List (String × Int) := [
  ("CRITICAL", 50), ("ERROR", 40), ("WARNING", 30), ("INFO", 20), ("DEBUG", 10), ("NOTSET", 0),
  ("FATAL", 50), ("WARN", 30)]

def warning : Int := 30

def levelName (n : Int) : String :=
  match levelNames.find? (·.2 = n) with
  | some (name, _) => name
  | none => "Level " ++ String.ofList (Number.intText n)

/-- A level is an integer; a truth value stands for 0 or 1. -/
inductive Level where
  | number (n : Int)
  | truth (b : Bool)
  deriving DecidableEq, Repr

def Level.toInt : Level → Int
  | .number n => n
  | .truth b => if b then 1 else 0

structure Settings where
  hasHandler : Bool
  level : Level
  deriving DecidableEq, Repr

/-- Once a logger has been asked for, and before anything is changed. -/
def Settings.ready : Settings := ⟨true, .number warning⟩

/-- Without handler and level. -/
def Settings.bare : Settings := ⟨false, .number 0⟩

inductive LevelFault where
  | unknown (name : String)
  | notALevel (v : Value)
  deriving Repr

def LevelFault.message : LevelFault → String
  | .unknown name => "Unknown level: " ++ Text.quoted ("Level " ++ name)
  | .notALevel v =>
    (v.literal?.map fun cs =>
      "Level not an integer or a valid string: " ++ String.ofList cs).getD integerTooLong

def upperCase (s : String) : String := String.ofList (Text.upper s.toList)

/-- The level that the environment asks for, or the one for warnings. -/
def defaultLevel (environment : Option String) : Int :=
  let name := upperCase (String.ofList (Text.strip (environment.getD "WARNING").toList))
  (levelNames.lookup name).getD warning

def isBelowRoot (name : String) : Bool := (rootName ++ ".").toList.isPrefixOf name.toList

/-- The full name of a logger. -/
def loggerName (name : String) : String :=
  if name = rootName ∨ isBelowRoot name then name else rootName ++ "." ++ name

namespace Settings

/-- Asks for a logger: the first time the handler is attached and the level set. -/
def withLogger (s : Settings) (environment : Option String) : Settings :=
  if s.hasHandler then s else ⟨true, .number (defaultLevel environment)⟩

def setLevel (s : Settings) : Value → Except LevelFault Settings
  | .str name =>
    let name := upperCase name
    match levelNames.lookup name with
    | some n => .ok { s with level := .number n }
    | none => .error (.unknown name)
  | .int n => .ok { s with level := .number n }
  | .bool b => .ok { s with level := .truth b }
  | v => .error (.notALevel v)

/-- The level from which on messages are written. -/
def threshold (s : Settings) : Int := if s.level.toInt = 0 then warning else s.level.toInt

/-- What is written for a message to the logger of that full name. -/
def written (s : Settings) (logger : String) (level : Int) (message : String) : String :=
  if (logger = rootName ∨ isBelowRoot logger) ∧ s.hasHandler ∧ 0 < level ∧ s.threshold ≤ level then
    s!"[maptools] {levelName level} {message}\n"
  else ""

end Settings

structure Record where
  level : Int
  logger : String
  message : String
  deriving DecidableEq, Repr

def debug : Int := 10

def info : Int := 20

/-- The record of a successful compilation. -/
def ofCompiled (t : Transformation) : Record :=
  let names := (Entries.keys t.nested).mergeSort
  ⟨debug, "maptools.mapping.compiler", "compiled transformation with nested mappings " ++
    String.ofList (listText (names.map fun n => Text.quotedChars n.toList))⟩

/-- The record of an event, if it leaves one. -/
def ofEvent? : Event → Option Record
  | .missing name _ => some ⟨debug, "maptools.mapping.interpreter",
      s!"no converter registered for {Text.quoted name}; returning None"⟩
  | _ => none

/-- The record of inputs that were all transformed. -/
def ofTransformed (n : Nat) (inputs : String) : Record :=
  ⟨info, "maptools.cli", s!"transformed {n} document(s) from {inputs}"⟩

def ofEvents (events : List Event) : List Record := events.filterMap ofEvent?

end Reshape.Log
