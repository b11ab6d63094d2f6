/-
  Reshape.Yaml.Lexer: the tokens of a YAML text.

  Block structure is shown by columns: a deeper column starts a sequence or mapping, a shallower
  one ends those that are open. Inside brackets columns do not count.

  A key need not be marked. Whatever may turn out to be one leaves a place before its token; if a
  colon follows on the same line within 1024 characters, the place becomes a key mark, after the
  start of a mapping if the key opens one. A token that stands at the indentation of an open
  mapping has to turn out to be a key.

  If something cannot be read, the tokens before it are given, as far as they are settled: from the
  first token on that may still turn out to be a key, none is.
-/

import Reshape.Text.Utf8
import Reshape.Yaml.Scalar
import Reshape.Yaml.Token

namespace Reshape.Yaml

/-- A token that may be a key. -/
structure SimpleKey where
  /-- Its place among the items. -/
  place : Nat
  isRequired : Bool
  index : Nat
  line : Nat
  column : Nat

/-- A token, or the place of a possible key. -/
inductive Item where
  | token (t : Token)
  | place (n : Nat)

structure Lexer where
  source : Source
  /-- How many brackets are open. -/
  flow : Nat
  indent : Int
  /-- The indentations around the present one, the nearest first. -/
  indents : List Int
  keyAllowed : Bool
  /-- The possible key at each depth of brackets, the deepest first. -/
  keys : List (Nat × SimpleKey)
  /-- What has been read, the last first. -/
  items : List Item
  places : Nat
  /-- The places that have become keys, and whether the key opens a mapping. -/
  confirmed : List (Nat × Bool)

namespace Lexer

def start (cs : List Char) : Lexer :=
  ⟨Source.start cs, 0, -1, [], true, [], [], 0, []⟩

def inFlow (l : Lexer) : Bool := l.flow ≠ 0

def column (l : Lexer) : Int := l.source.column

def emit (l : Lexer) (t : Token) : Lexer := { l with items := .token t :: l.items }

/-- Emits a token for the next `n` characters. -/
def take (l : Lexer) (n : Nat) (t : Token) : Lexer :=
  { l with source := l.source.advanceBy n }.emit t

/-- Emits a token that ends at `s`. -/
def takeTo (l : Lexer) (s : Source) (t : Token) : Lexer := { l with source := s }.emit t

def allowKey (l : Lexer) (allowed : Bool) : Lexer := { l with keyAllowed := allowed }

/-! ## Indentation -/

/-- Ends the block collections that are deeper than a column. -/
def unwindFrom (column : Int) : List Int → Lexer → Lexer
  | [], l => l
  | outer :: indents, l =>
    if column < l.indent then
      unwindFrom column indents ({ l with indent := outer, indents := indents }.emit .blockEnd)
    else l

def unwind (l : Lexer) (column : Int) : Lexer :=
  if l.inFlow then l else unwindFrom column l.indents l

/-- Opens an indentation, if the column is deeper than the present one. -/
def indentTo (l : Lexer) (column : Int) : Bool × Lexer :=
  if l.indent < column then (true, { l with indent := column, indents := l.indent :: l.indents })
  else (false, l)

/-- Starts a block collection at the present column, if that is deeper. -/
def openBlock (l : Lexer) (t : Token) : Lexer :=
  match l.indentTo l.column with
  | (true, l) => l.emit t
  | (false, l) => l

/-! ## Possible keys -/

/-- Gives up the possible key at the present depth. -/
def dropKey (l : Lexer) : Except Fault Lexer :=
  match l.keys.lookup l.flow with
  | none => .ok l
  | some key =>
    if key.isRequired then .error .malformed
    else .ok { l with keys := l.keys.filter (·.1 ≠ l.flow) }

/-- Notes that the next token may be a key. -/
def noteKey (l : Lexer) : Except Fault Lexer :=
  if l.keyAllowed then do
    let l ← l.dropKey
    let isRequired := !l.inFlow && l.indent = l.column
    let s := l.source
    pure { l with
      keys := (l.flow, ⟨l.places, isRequired, s.index, s.line, s.column⟩) :: l.keys,
      items := .place l.places :: l.items,
      places := l.places + 1 }
  else pure l

def isStale (s : Source) (key : SimpleKey) : Bool :=
  key.line ≠ s.line || key.index + 1024 < s.index

/-- Gives up the possible keys that no colon can follow any more. -/
def dropStaleKeys (l : Lexer) : Except Fault Lexer :=
  if l.keys.any fun (_, key) => isStale l.source key && key.isRequired then .error .malformed
  else .ok { l with keys := l.keys.filter fun (_, key) => !isStale l.source key }

/-! ## Blanks between tokens -/

/-- Past spaces, comments and line breaks. After a line break a key is allowed outside brackets. -/
def skipBlanks : Nat → Lexer → Lexer
  | 0, l => l
  | fuel + 1, l =>
    let s := l.source.skipSpaces.skipComment
    match s.takeBreak with
    | none => { l with source := s }
    | some (_, s) => skipBlanks fuel { l with source := s, keyAllowed := l.keyAllowed || !l.inFlow }

/-! ## Names, tags and directives -/

/-- A name, which must not be empty. -/
def name (s : Source) : Except Fault (String × Source) :=
  match s.takeWhile isNameChar with
  | ([], _) => .error .malformed
  | (cs, s) => .ok (String.ofList cs, s)

/-- The name of an anchor or alias, after its indicator. -/
def anchorName (s : Source) : Except Fault (String × Source) := do
  let (cs, s) ← name s
  if blankOrEnd s.peek || s.peek.any "?:,]\x7d%@`".toList.contains then pure (cs, s)
  else throw .malformed

def isUriChar (c : Char) : Bool := isNameChar c || ";/?:@&=+$,.!~*'()[]".toList.contains c

/-- Bytes written as `%` and two hexadecimal digits. -/
def uriBytes : Nat → Source → Except Fault (List UInt8 × Source)
  | 0, s => .ok ([], s)
  | fuel + 1, s =>
    if s.peek ≠ some '%' then .ok ([], s)
    else match ((s.rest.drop 1).take 2).mapM Number.hexValue? with
      | some [a, b] =>
        (uriBytes fuel (s.advanceBy 3)).map fun (bs, s) => (UInt8.ofNat (a * 16 + b) :: bs, s)
      | _ => .error .malformed

def uriRest : Nat → Source → Except Fault (List Char × Source)
  | 0, s => .ok ([], s)
  | fuel + 1, s =>
    match s.takeWhile isUriChar with
    | ([], s) =>
      if s.peek = some '%' then do
        let (bs, s) ← uriBytes fuel s
        match Text.Utf8.decode bs with
        | .error _ => throw .malformed
        | .ok cs =>
          let (rest, s) ← uriRest fuel s
          pure (cs ++ rest, s)
      else .ok ([], s)
    | (cs, s) => (uriRest fuel s).map fun (rest, s) => (cs ++ rest, s)

/-- A tag's text, which must not be empty. -/
def uri (s : Source) : Except Fault (String × Source) := do
  if s.peek.any fun c => isUriChar c || c = '%' then
    let (cs, s) ← uriRest (s.rest.length + 1) s
    pure (String.ofList cs, s)
  else throw .malformed

/-- A handle: an exclamation mark, or a name between two. -/
def handle (s : Source) : Except Fault (String × Source) :=
  if s.peek ≠ some '!' then .error .malformed
  else
    let (cs, t) := s.advance.takeWhile isNameChar
    match t.peek with
    | some '!' => .ok (String.ofList ('!' :: cs ++ ['!']), t.advance)
    | some ' ' => if cs = [] then .ok ("!", t) else .error .malformed
    | _ => .error .malformed

/-- A tag, from its exclamation mark on. -/
def tag (s : Source) : Except Fault (Token × Source) := do
  let (t, s) ← (
    if s.peekAt 1 = some '<' then do
      let (suffix, s) ← uri (s.advanceBy 2)
      if s.peek = some '>' then pure (Token.tag none suffix, s.advance) else throw .malformed
    else if blankOrEnd (s.peekAt 1) then pure (Token.tag none "!", s.advance)
    else do
      let word := (s.rest.drop 1).takeWhile fun c => c ≠ ' ' && !isBreak c
      let (h, s) ← if '!' ∈ word then handle s else pure ("!", s.advance)
      let (suffix, s) ← uri s
      pure (Token.tag (some h) suffix, s))
  if spaceOrEnd s.peek then pure (t, s) else throw .malformed

/-- A part of a version number. -/
def versionNumber (s : Source) : Except Fault (Nat × Source) :=
  match s.takeWhile Char.isDigit with
  | ([], _) => .error .malformed
  | (ds, s) =>
    if digitLimit < ds.length then .error (.integerTooLong ds.length)
    else .ok (Number.decimalValue ds, s)

/-- A directive, from its percent sign to the end of its line. -/
def directive (s : Source) : Except Fault (Directive × Source) := do
  let (word, s) ← name s.advance
  if !spaceOrEnd s.peek then throw .malformed
  let (d, s) ← (
    if word = "YAML" then do
      let (major, s) ← versionNumber s.skipSpaces
      if s.peek ≠ some '.' then throw .malformed
      let (minor, s) ← versionNumber s.advance
      pure (Directive.version major minor, s)
    else if word = "TAG" then do
      let (h, s) ← handle s.skipSpaces
      if s.peek ≠ some ' ' then throw .malformed
      let (expansion, s) ← uri s.skipSpaces
      pure (Directive.handle h expansion, s)
    else pure (Directive.unknown word, s.skipWhile (!isBreak ·)))
  if !spaceOrEnd s.peek then throw .malformed
  let s := s.skipSpaces.skipComment
  match s.takeBreak with
  | some (_, s) => pure (d, s)
  | none => if s.rest = [] then pure (d, s) else throw .malformed

/-! ## Tokens -/

/-- A directive or document marker, which ends all blocks. -/
def atMargin (l : Lexer) : Except Fault Lexer := do
  let l ← (l.unwind (-1)).dropKey
  pure (l.allowKey false)

def openFlow (l : Lexer) (t : Token) : Except Fault Lexer := do
  let l ← l.noteKey
  pure (({ l with flow := l.flow + 1 }.allowKey true).take 1 t)

def closeFlow (l : Lexer) (t : Token) : Except Fault Lexer := do
  if !l.inFlow then throw .malformed
  let l ← l.dropKey
  pure (({ l with flow := l.flow - 1 }.allowKey false).take 1 t)

def flowEntry (l : Lexer) : Except Fault Lexer := do
  let l ← (l.allowKey true).dropKey
  pure (l.take 1 .flowEntry)

def blockEntry (l : Lexer) : Except Fault Lexer := do
  if !l.inFlow && !l.keyAllowed then throw .malformed
  let l := if l.inFlow then l else l.openBlock .blockSequenceStart
  let l ← (l.allowKey true).dropKey
  pure (l.take 1 .blockEntry)

def key (l : Lexer) : Except Fault Lexer := do
  if !l.inFlow && !l.keyAllowed then throw .malformed
  let l := if l.inFlow then l else l.openBlock .blockMappingStart
  let l ← (l.allowKey !l.inFlow).dropKey
  pure (l.take 1 .key)

def value (l : Lexer) : Except Fault Lexer := do
  match l.keys.lookup l.flow with
  | some key =>
    let (opens, l) := if l.inFlow then (false, l) else l.indentTo key.column
    let l := { l with
      keys := l.keys.filter (·.1 ≠ l.flow), confirmed := (key.place, opens) :: l.confirmed }
    pure ((l.allowKey false).take 1 .value)
  | none =>
    if !l.inFlow && !l.keyAllowed then throw .malformed
    let l := if l.inFlow then l else l.openBlock .blockMappingStart
    let l ← (l.allowKey !l.inFlow).dropKey
    pure (l.take 1 .value)

/-- A token that may be a key, read by `scan`. -/
def possibleKey (l : Lexer) (scan : Source → Except Fault (Token × Source)) :
    Except Fault Lexer := do
  let l ← l.noteKey
  let (t, s) ← scan l.source
  pure ((l.allowKey false).takeTo s t)

def quoted (isDouble : Bool) (s : Source) : Except Fault (Token × Source) :=
  (quotedScalar isDouble s).map fun (cs, s) => (.scalar (String.ofList cs) false, s)

def block (l : Lexer) (isFolded : Bool) : Except Fault Lexer := do
  let l ← (l.allowKey true).dropKey
  let (cs, s) ← blockScalar isFolded l.indent l.source
  pure (l.takeTo s (.scalar (String.ofList cs) false))

def plain (l : Lexer) : Except Fault Lexer := do
  let l ← l.noteKey
  let (cs, s, overLines) :=
    plainScalar l.inFlow (l.indent + 1).toNat (l.source.rest.length + 1) l.source
  pure ((l.allowKey overLines).takeTo s (.scalar (String.ofList cs) true))

def indicators : List Char := "-?:,[]\x7b\x7d#&*!|>'\"%@`".toList

/-- Whether a plain scalar can start here. -/
def startsPlain (l : Lexer) (c : Char) : Bool :=
  !(blankOrEnd (some c) || indicators.contains c) ||
    (!blankOrEnd (l.source.peekAt 1) && (c = '-' || (!l.inFlow && (c = '?' || c = ':'))))

/-- Reads the token that starts with `c`. -/
def token (l : Lexer) (c : Char) : Except Fault Lexer := do
  let s := l.source
  let first := s.column = 0
  let blankNext := blankOrEnd (s.peekAt 1)
  if c = '%' ∧ first then
    let l ← l.atMargin
    let (d, s) ← directive l.source
    pure (l.takeTo s (.directive d))
  else if first ∧ s.atMarker then
    let l ← l.atMargin
    pure (l.take 3 (if c = '-' then .documentStart else .documentEnd))
  else if c = '[' then l.openFlow .flowSequenceStart
  else if c = '\x7b' then l.openFlow .flowMappingStart
  else if c = ']' then l.closeFlow .flowSequenceEnd
  else if c = '\x7d' then l.closeFlow .flowMappingEnd
  else if c = ',' then l.flowEntry
  else if c = '-' ∧ blankNext then l.blockEntry
  else if c = '?' ∧ (l.inFlow ∨ blankNext) then l.key
  else if c = ':' ∧ (l.inFlow ∨ blankNext) then l.value
  else if c = '*' then
    l.possibleKey fun s => (anchorName s.advance).map fun (n, s) => (.alias n, s)
  else if c = '&' then
    l.possibleKey fun s => (anchorName s.advance).map fun (n, s) => (.anchor n, s)
  else if c = '!' then l.possibleKey tag
  else if c = '|' ∧ !l.inFlow then l.block false
  else if c = '>' ∧ !l.inFlow then l.block true
  else if c = '\'' then l.possibleKey (quoted false)
  else if c = '"' then l.possibleKey (quoted true)
  else if l.startsPlain c then l.plain
  else throw .malformed

/-- Past the blanks to the next token or the end of the text, and past that; `true` at the end. -/
def next (l : Lexer) : Except Fault (Bool × Lexer) := do
  let l ← (skipBlanks (l.source.rest.length + 1) l).dropStaleKeys
  let l := l.unwind l.column
  match l.source.peek with
  | none => pure (true, ← l.atMargin)
  | some c => pure (false, ← (← l.token c).dropStaleKeys)

/-- Items as tokens, each place replaced by the marks of the key that it has become. -/
def tokensOf (l : Lexer) (items : List Item) : List Token :=
  items.flatMap fun
    | .token t => [t]
    | .place n => match l.confirmed.lookup n with
      | none => []
      | some true => [.blockMappingStart, .key]
      | some false => [.key]

def tokens (l : Lexer) : List Token := l.tokensOf l.items.reverse

/-- The tokens before the first that may still turn out to be a key. -/
def settled (l : Lexer) : List Token :=
  let possible := l.keys.map (·.2.place)
  l.tokensOf (l.items.reverse.takeWhile fun
    | .token _ => true
    | .place n => !possible.contains n)

/-- Reads tokens to the end of the text, or as far as they can be read. Each takes at least one
character. -/
def run : Nat → Lexer → List Token
  | 0, l => l.settled
  | fuel + 1, l => match l.next with
    | .error fault => l.settled ++ [.broken fault]
    | .ok (true, l) => l.tokens
    | .ok (false, l) => run fuel l

end Lexer

/-- The characters that a text may hold. -/
def isAllowed (c : Char) : Bool :=
  let n := c.toNat
  c = '\t' || c = '\n' || (0x20 ≤ n && n ≤ 0x7E) || n = 0x85 || (0xA0 ≤ n && n ≤ 0xFFFD) ||
    0x10000 ≤ n

/-- The tokens of a text. A byte order mark at its start is passed over. -/
def Token.scan (cs : List Char) : List Token :=
  if cs.all isAllowed then
    let l := Lexer.start cs
    let l := if l.source.peek = some '\uFEFF' then { l with source := l.source.advance } else l
    Lexer.run (cs.length + 1) l
  else [.broken .malformed]

end Reshape.Yaml
