/-
  Reshape.Text.Quoted: a text in quotes, on one line, as messages show it.

  The quotes are single unless the text holds a single quote and no double one. The quote in use,
  the backslash and everything that is not printable are escaped: newline, return and tab by a
  letter, other characters by their code point in two, four or eight hexadecimal digits.
-/

import Reshape.Text.Printable

namespace Reshape.Text

def hexDigit (n : Nat) : Char := Nat.digitChar n

/-- The `width` lowest hexadecimal digits of `n`. -/
def hexadecimal : (width n : Nat) → List Char
  | 0, _ => []
  | w + 1, n => hexadecimal w (n / 16) ++ [hexDigit (n % 16)]

def quoteFor (cs : List Char) : Char := if '\'' ∈ cs ∧ '"' ∉ cs then '"' else '\''

def escapeChar (quote c : Char) : List Char :=
  if c = quote ∨ c = '\\' then ['\\', c]
  else if c = '\n' then ['\\', 'n']
  else if c = '\r' then ['\\', 'r']
  else if c = '\t' then ['\\', 't']
  else if isPrintable c then [c]
  else if c.toNat < 0x100 then '\\' :: 'x' :: hexadecimal 2 c.toNat
  else if c.toNat < 0x10000 then '\\' :: 'u' :: hexadecimal 4 c.toNat
  else '\\' :: 'U' :: hexadecimal 8 c.toNat

def quotedChars (cs : List Char) : List Char :=
  let quote := quoteFor cs
  quote :: cs.flatMap (escapeChar quote) ++ [quote]

def quoted (s : String) : String := String.ofList (quotedChars s.toList)

/-- The same for bytes, of which those in ASCII are shown as characters. -/
def quotedBytes (bs : List UInt8) : List Char :=
  let cs := bs.map fun b => Char.ofNat b.toNat
  let quote := quoteFor cs
  let escape (c : Char) : List Char :=
    if c.toNat < 0x7F then escapeChar quote c else '\\' :: 'x' :: hexadecimal 2 c.toNat
  'b' :: quote :: cs.flatMap escape ++ [quote]

end Reshape.Text
