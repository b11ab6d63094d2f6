/-
  Reshape.Converter: converters, and why one can fail.

  A converter turns a value into a value or fails. It sees nothing but its argument and changes
  nothing, so that the order and number of its calls matter to no result.
-/

import Reshape.Json.Reader
import Reshape.Text.Quoted

namespace Reshape

inductive ConversionFault where
  /-- The value cannot be read as an integer: it is neither text nor a number. -/
  | notIntegral (kind : String)
  | integerText (text : String)
  | integerTextTooLong (digits : Nat)
  | integerBytes (bytes : List UInt8)
  | infinity
  | notANumber
  /-- The value cannot be read as a float: it is neither text nor a number. -/
  | notNumeric (kind : String)
  | floatText (text : String)
  | floatBytes (bytes : List UInt8)
  | integerTooLarge
  /-- The value holds an integer that is too long to be written. -/
  | unwritable
  | json (fault : Json.Fault)
  /-- A failure with words of its own. -/
  | other (message : String)
  deriving DecidableEq, Repr

/-- Quoted texts that are not numerals are cut to this length. -/
def quotationLimit : Nat := 200

/-- What is said of a quoted text that is no integer in a base. -/
def notAnInteger (base : Nat) (quoted : List Char) : String :=
  s!"invalid literal for int() with base {base}: " ++ String.ofList (quoted.take quotationLimit)

def ConversionFault.message : ConversionFault → String
  | .notIntegral kind =>
    s!"int() argument must be a string, a bytes-like object or a real number, not '{kind}'"
  | .integerText text => notAnInteger 10 (Text.quotedChars text.toList)
  | .integerTextTooLong digits => numeralTooLong digits
  | .integerBytes bytes => notAnInteger 10 (Text.quotedBytes (bytes.take quotationLimit))
  | .infinity => "cannot convert float infinity to integer"
  | .notANumber => "cannot convert float NaN to integer"
  | .notNumeric kind => s!"float() argument must be a string or a real number, not '{kind}'"
  | .floatText text => "could not convert string to float: " ++ Text.quoted text
  | .floatBytes bytes =>
    "could not convert string to float: " ++ String.ofList (Text.quotedBytes bytes)
  | .integerTooLarge => "int too large to convert to float"
  | .unwritable => integerTooLong
  | .json fault => fault.message
  | .other message => message

abbrev Converter := Value → Except ConversionFault Value

end Reshape
