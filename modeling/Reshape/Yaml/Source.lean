/-
  Reshape.Yaml.Source: a text and how far it has been read.

  A line ends at a newline, a next-line character or a line or paragraph separator. The first two
  stand for a newline in the text of a scalar and the others for themselves. A byte order mark
  takes up no column.
-/

namespace Reshape.Yaml

structure Source where
  rest : List Char
  index : Nat
  line : Nat
  column : Nat

def isBreak (c : Char) : Bool := c = '\n' || c = '\x85' || c = '\u2028' || c = '\u2029'

/-- The end of the text, or a character in `p`. -/
def endOr (p : Char → Bool) : Option Char → Bool
  | none => true
  | some c => p c

def spaceOrEnd : Option Char → Bool := endOr fun c => c = ' ' || isBreak c

def blankOrEnd : Option Char → Bool := endOr fun c => c = ' ' || c = '\t' || isBreak c

def isNameChar (c : Char) : Bool := c.isAlphanum || c = '-' || c = '_'

namespace Source

def start (cs : List Char) : Source := ⟨cs, 0, 0, 0⟩

def peek (s : Source) : Option Char := s.rest.head?

def peekAt (s : Source) (n : Nat) : Option Char := s.rest[n]?

def startsWith (s : Source) (word : String) : Bool := word.toList.isPrefixOf s.rest

/-- Past the next character. -/
def advance (s : Source) : Source :=
  match s.rest with
  | [] => s
  | c :: rest =>
    if isBreak c then ⟨rest, s.index + 1, s.line + 1, 0⟩
    else if c = '\uFEFF' then ⟨rest, s.index + 1, s.line, s.column⟩
    else ⟨rest, s.index + 1, s.line, s.column + 1⟩

def advanceBy (s : Source) : Nat → Source
  | 0 => s
  | n + 1 => s.advance.advanceBy n

/-- The characters in `p` that come next, and the source past them. -/
def takeWhile (s : Source) (p : Char → Bool) : List Char × Source :=
  let cs := s.rest.takeWhile p
  (cs, s.advanceBy cs.length)

def skipWhile (s : Source) (p : Char → Bool) : Source := (s.takeWhile p).2

def skipSpaces (s : Source) : Source := s.skipWhile (· = ' ')

/-- Past a comment, if one comes next. -/
def skipComment (s : Source) : Source :=
  if s.peek = some '#' then s.skipWhile (!isBreak ·) else s

/-- What the line break that comes next stands for, if one does. -/
def takeBreak (s : Source) : Option (Char × Source) :=
  match s.peek with
  | some c =>
    if c = '\n' ∨ c = '\x85' then some ('\n', s.advance)
    else if isBreak c then some (c, s.advance)
    else none
  | none => none

/-- Whether a line with a document marker comes next. -/
def atMarker (s : Source) : Bool :=
  (s.startsWith "---" || s.startsWith "...") && blankOrEnd (s.peekAt 3)

/-- Past spaces up to a column. -/
def indentTo (s : Source) (column : Nat) : Source :=
  s.advanceBy ((s.rest.take (column - s.column)).takeWhile (· = ' ')).length

end Source

end Reshape.Yaml
