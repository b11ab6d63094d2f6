/-
  Reshape.Yaml.Fault: why a YAML text gives no value.

  Most texts fail because they are no YAML or ask for a kind of value that is not known. The others
  are well formed but name a number, a truth value or a date that does not exist.
-/

import Reshape.Calendar
import Reshape.Converter

namespace Reshape.Yaml

inductive Fault where
  | malformed
  /-- An escape for a code point beyond the last one. -/
  | codePoint
  /-- An escape for a code point beyond the numbers that there are for them. -/
  | codePointTooLarge
  | integer (base : Nat) (text : String)
  | integerTooLong (digits : Nat)
  | float (text : String)
  | truth (text : String)
  /-- A number without characters. -/
  | emptyNumber
  /-- A number of so many parts in sixties that the first one's weight is beyond all floats. -/
  | tooManySixties
  /-- A text that is marked as a date and is none. -/
  | notADate
  /-- The text of a date stands in a mapping. -/
  | dateInMapping
  | calendar (fault : CalendarFault)
  deriving DecidableEq, Repr

def Fault.message : Fault → String
  | .malformed => "invalid YAML"
  | .codePoint => "chr() arg not in range(0x110000)"
  | .integer base text => notAnInteger base (Text.quotedChars text.toList)
  | .integerTooLong digits => numeralTooLong digits
  | .float text => (ConversionFault.floatText text).message
  | .truth text => Text.quoted text
  | .codePointTooLarge => "Python int too large to convert to C int"
  | .tooManySixties => ConversionFault.integerTooLarge.message
  | .emptyNumber => "string index out of range"
  | .notADate => "'NoneType' object has no attribute 'groupdict'"
  | .dateInMapping => "expected string or bytes-like object, got 'list'"
  | .calendar fault => fault.message

/-- Reads a YAML text as a value. -/
abbrev Reader := List Char → Except Fault Value

end Reshape.Yaml
