/-
  Reshape.Yaml.Scalar: the text of a scalar, from the characters that write it.

  Plain scalars run over lines, single and double quoted ones too, and block scalars take the lines
  that are indented below their header. Line breaks inside fold: one break becomes a space, of
  several the first is dropped. A literal block keeps its breaks, and how a block ends is chosen by
  its header.
-/

import Reshape.Number.Integer
import Reshape.Json.Reader
import Reshape.Yaml.Fault
import Reshape.Yaml.Source

namespace Reshape.Yaml

/-- A scalar's text and the source past it. -/
abbrev Scan := Except Fault (List Char × Source)

/-- What a break and the breaks after it become when they fold. -/
def folded (first : Char) (breaks : List Char) : List Char :=
  if first ≠ '\n' then first :: breaks
  else if breaks = [] then [' ']
  else breaks

/-! ## Quoted scalars -/

/-- The breaks that come next, with the blanks before, between and after them skipped. Documents
do not end inside a quoted scalar. -/
def quotedBreaks : Nat → Source → Scan
  | 0, s => .ok ([], s)
  | fuel + 1, s =>
    if s.atMarker then .error .malformed
    else
      let s := s.skipWhile fun c => c = ' ' || c = '\t'
      match s.takeBreak with
      | some (c, s) => (quotedBreaks fuel s).map fun (cs, s) => (c :: cs, s)
      | none => .ok ([], s)

/-- Blanks inside a quoted scalar: kept within a line, folded over lines. -/
def quotedBlanks (fuel : Nat) (s : Source) : Scan :=
  let (blanks, s) := s.takeWhile fun c => c = ' ' || c = '\t'
  match s.peek with
  | none => .error .malformed
  | some _ => match s.takeBreak with
    | some (first, s) => (quotedBreaks fuel s).map fun (breaks, s) => (folded first breaks, s)
    | none => .ok (blanks, s)

def escapes : List (Char × Char) := [
  ('0', '\x00'), ('a', '\x07'), ('b', '\x08'), ('t', '\t'), ('\t', '\t'), ('n', '\n'),
  ('v', '\x0b'), ('f', '\x0c'), ('r', '\r'), ('e', '\x1b'), (' ', ' '), ('"', '"'), ('\\', '\\'),
  ('/', '/'), ('N', '\x85'), ('_', '\xa0'), ('L', '\u2028'), ('P', '\u2029')]

def escapeWidths : List (Char × Nat) := [('x', 2), ('u', 4), ('U', 8)]

/-- A character given by this many hexadecimal digits. -/
def codePoint (width : Nat) (s : Source) : Except Fault (Char × Source) :=
  match (s.rest.take width).mapM Number.hexValue? with
  | none => .error .malformed
  | some ds =>
    let n := Number.ofDigits 16 ds
    if ds.length ≠ width then .error .malformed
    else if 0x80000000 ≤ n then .error .codePointTooLarge
    else if 0x110000 ≤ n then .error .codePoint
    else .ok (Json.character n, s.advanceBy width)

/-- What a backslash and the character after it stand for. -/
def escaped (fuel : Nat) (s : Source) : Scan :=
  match s.peek with
  | none => .error .malformed
  | some c => match escapes.lookup c, escapeWidths.lookup c with
    | some d, _ => .ok ([d], s.advance)
    | _, some width => (codePoint width s.advance).map fun (d, s) => ([d], s)
    | none, none => match s.takeBreak with
      | some (_, s) => quotedBreaks fuel s
      | none => .error .malformed

/-- The rest of a quoted scalar after its opening quote. -/
def quotedRest (isDouble : Bool) : Nat → Source → Scan
  | 0, _ => .error .malformed
  | fuel + 1, s =>
    let more (piece : List Char) (s : Source) : Scan :=
      (quotedRest isDouble fuel s).map fun (cs, s) => (piece ++ cs, s)
    match s.peek with
    | none => .error .malformed
    | some c =>
      if c = '\'' ∧ !isDouble then
        if s.peekAt 1 = some '\'' then more ['\''] (s.advanceBy 2) else .ok ([], s.advance)
      else if c = '"' ∧ isDouble then .ok ([], s.advance)
      else if c = '\\' ∧ isDouble then do
        let (piece, s) ← escaped fuel s.advance
        more piece s
      else if c = ' ' ∨ c = '\t' ∨ isBreak c then do
        let (piece, s) ← quotedBlanks fuel s
        more piece s
      else more [c] s.advance

def quotedScalar (isDouble : Bool) (s : Source) : Scan :=
  quotedRest isDouble (s.rest.length + 1) s.advance

/-! ## Plain scalars -/

/-- Whether a plain scalar ends before what comes next. -/
def endsPlain (inFlow : Bool) : List Char → Bool
  | [] => true
  | c :: rest =>
    blankOrEnd (some c) ||
      (c = ':' &&
        (blankOrEnd rest.head? || (inFlow && rest.head?.any ",[]\x7b\x7d".toList.contains))) ||
      (inFlow && ",?[]\x7b\x7d".toList.contains c)

/-- The characters of a plain scalar up to the next blank or its end. -/
def plainWord (inFlow : Bool) : List Char → List Char
  | [] => []
  | c :: rest => if endsPlain inFlow (c :: rest) then [] else c :: plainWord inFlow rest

/-- The breaks that come next, with the spaces before and between them skipped; `none` if a
document ends there. -/
def plainBreaks : Nat → Source → Option (List Char) × Source
  | 0, s => (some [], s)
  | fuel + 1, s =>
    if s.atMarker then (none, s)
    else
      let s := s.skipSpaces
      match s.takeBreak with
      | some (c, s) =>
        let (cs, s) := plainBreaks fuel s
        (cs.map (c :: ·), s)
      | none => (some [], s)

/-- What may join two words of a plain scalar, the source past it, and whether a line ended. -/
structure PlainGap where
  text : List Char
  source : Source
  overLines : Bool

def plainGap (fuel : Nat) (s : Source) : PlainGap :=
  let (spaces, s) := s.takeWhile (· = ' ')
  match s.takeBreak with
  | none => ⟨spaces, s, false⟩
  | some (first, s) => match plainBreaks fuel s with
    | (none, s) => ⟨[], s, true⟩
    | (some breaks, s) => ⟨folded first breaks, s, true⟩

/-- The text of a plain scalar, the source past it and the blanks after it, and whether the last
of these blanks end a line. -/
def plainScalar (inFlow : Bool) (indent : Nat) : Nat → Source → List Char × Source × Bool
  | 0, s => ([], s, false)
  | fuel + 1, s =>
    let word := if s.peek = some '#' then [] else plainWord inFlow s.rest
    if word = [] then ([], s, false)
    else
      let gap := plainGap fuel (s.advanceBy word.length)
      if gap.text = [] ∨ gap.source.peek = some '#' ∨ (!inFlow ∧ gap.source.column < indent) then
        (word, gap.source, gap.overLines)
      else
        match plainScalar inFlow indent fuel gap.source with
        | ([], s, _) => (word, s, gap.overLines)
        | (cs, s, overLines) => (word ++ gap.text ++ cs, s, overLines)

/-! ## Block scalars -/

/-- How a block scalar ends: with its last break, without it, or with all breaks after it too. -/
inductive Chomping where
  | clip
  | strip
  | keep
  deriving DecidableEq, Repr

def chomping? : Option Char → Option Chomping
  | some '+' => some .keep
  | some '-' => some .strip
  | _ => none

/-- The indentation that a header gives, if it gives one. -/
def indentation (s : Source) : Except Fault (Option Nat × Source) :=
  match s.peek.bind Text.asciiDigit? with
  | none => .ok (none, s)
  | some 0 => .error .malformed
  | some n => .ok (some n, s.advance)

/-- The header after the indicator, up to and with the end of its line. -/
def blockHeader (s : Source) : Except Fault (Chomping × Option Nat × Source) := do
  let (chomping, width, s) ← match chomping? s.peek with
    | some c => do
      let (width, s) ← indentation s.advance
      pure (c, width, s)
    | none => do
      let (width, s) ← indentation s
      match width, chomping? s.peek with
      | some _, some c => pure (c, width, s.advance)
      | _, _ => pure (.clip, width, s)
  if !spaceOrEnd s.peek then throw .malformed
  let s := s.skipSpaces.skipComment
  match s.takeBreak with
  | some (_, s) => pure (chomping, width, s)
  | none => if s.rest = [] then pure (chomping, width, s) else throw .malformed

/-- The blank lines that come next and the spaces before the first other line, with the greatest
column reached. -/
def leadingBreaks : Nat → Source → Nat → List Char × Nat × Source
  | 0, s, column => ([], column, s)
  | fuel + 1, s, column =>
    let s := s.skipSpaces
    let column := max column s.column
    match s.takeBreak with
    | some (c, s) =>
      let (cs, column, s) := leadingBreaks fuel s column
      (c :: cs, column, s)
    | none => ([], column, s)

/-- The blank lines that come next, of at most this indentation. -/
def blockBreaks (indent : Nat) : Nat → Source → List Char × Source
  | 0, s => ([], s)
  | fuel + 1, s =>
    let s := s.indentTo indent
    match s.takeBreak with
    | some (c, s) =>
      let (cs, s) := blockBreaks indent fuel s
      (c :: cs, s)
    | none => ([], s)

def startsBlank (s : Source) : Bool := s.peek.any fun c => c = ' ' || c = '\t'

/-- The lines of a block scalar, from a line on and with the blank lines before it; gives the text
without its end, the last break, the blank lines after it, and the source past them. -/
def blockLines (isFolded : Bool) (indent : Nat) :
    Nat → List Char → Source → List Char × List Char × List Char × Source
  | 0, breaks, s => ([], [], breaks, s)
  | fuel + 1, breaks, s =>
    let isText := !startsBlank s
    let (line, s) := s.takeWhile (!isBreak ·)
    let (lineBreak, s) := match s.takeBreak with
      | some (c, s) => ([c], s)
      | none => ([], s)
    let (after, s) := blockBreaks indent fuel s
    if s.column = indent ∧ s.rest ≠ [] then
      let joint := if isFolded ∧ lineBreak = ['\n'] ∧ isText ∧ !startsBlank s then
          (if after = [] then [' '] else [])
        else lineBreak
      let (cs, lastBreak, tail, s) := blockLines isFolded indent fuel after s
      (breaks ++ line ++ joint ++ cs, lastBreak, tail, s)
    else (breaks ++ line, lineBreak, after, s)

/-- A block scalar below a node of this indentation, from its indicator on. -/
def blockScalar (isFolded : Bool) (parentIndent : Int) (s : Source) : Scan := do
  let fuel := s.rest.length
  let (chomping, width, s) ← blockHeader s.advance
  let least := max 1 (parentIndent + 1).toNat
  let (breaks, indent, s) := match width with
    | none =>
      let (breaks, column, s) := leadingBreaks fuel s 0
      (breaks, max least column, s)
    | some n =>
      let indent := least + n - 1
      let (breaks, s) := blockBreaks indent fuel s
      (breaks, indent, s)
  let (text, lastBreak, tail, s) :=
    if s.column = indent ∧ s.rest ≠ [] then blockLines isFolded indent (fuel + 1) breaks s
    else ([], [], breaks, s)
  pure (match chomping with
    | .strip => (text, s)
    | .clip => (text ++ lastBreak, s)
    | .keep => (text ++ lastBreak ++ tail, s))

end Reshape.Yaml
