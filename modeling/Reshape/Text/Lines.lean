/-
  Reshape.Text.Lines: line ends.

  A line ends at a newline, at a return, or at a return and a newline together, and nowhere else.
  - `unifyLineEnds`: the text with each of the three written as a newline.
  - `lines`: the lines of a text, without their ends; a line end that closes the text starts no
    further line.
-/

import Reshape.Text.Pieces

namespace Reshape.Text

def unifyLineEnds : List Char → List Char
  | [] => []
  | '\r' :: '\n' :: cs => '\n' :: unifyLineEnds cs
  | c :: cs => (if c = '\r' then '\n' else c) :: unifyLineEnds cs

/-- The lines of a text whose line ends are newlines. -/
def linesAtNewlines (cs : List Char) : List (List Char) :=
  let ls := pieces '\n' cs
  if ls.getLast? = some [] then ls.dropLast else ls

def lines (cs : List Char) : List (List Char) := linesAtNewlines (unifyLineEnds cs)

end Reshape.Text
