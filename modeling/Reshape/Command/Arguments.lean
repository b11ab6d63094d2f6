/-
  Reshape.Command.Arguments: reading a command line.

  Before the command only `--verbose` is known. After it, options and arguments may be mixed; two
  hyphens alone end the options. A long option takes its value after an equals sign or from the
  next word, whatever that is; short options can be joined, and one that takes a value takes the
  rest of its word. Of an option that is given again the last value counts, except for converter
  specs, which add up.
-/

import Reshape.Text.Pieces

namespace Reshape.Command

structure Options where
  converters : List String
  builtins : Bool
  out : Option String
  deriving DecidableEq, Repr

inductive Request where
  | check (mapping : String) (options : Options)
  | apply (mapping inputs : String) (options : Options)
  | converters
  deriving DecidableEq, Repr

/-- What an option does to the options read so far. -/
inductive Effect where
  | flag (set : Options → Options)
  | valued (set : String → Options → Options)

/-- The options of a command, by the words for them. -/
abbrev Vocabulary := List (String × Effect)

def addConverters (spec : String) (o : Options) : Options :=
  { o with converters := o.converters ++ [spec] }

def shared : Vocabulary := [
  ("--converters", .valued addConverters), ("-c", .valued addConverters),
  ("--builtins", .flag fun o => { o with builtins := true }),
  ("--no-builtins", .flag fun o => { o with builtins := false })]

def output : Vocabulary := [
  ("--out", .valued fun p o => { o with out := some p }),
  ("-o", .valued fun p o => { o with out := some p })]

def Options.initial : Options := ⟨[], true, none⟩

/-- Whether a word is an option or several. -/
def isOption (word : String) : Bool := word.toList.head? = some '-' && word ≠ "-"

/-- A word before and after its first equals sign. -/
def assignment (word : String) : String × Option String :=
  match Text.splitAt '=' word with
  | name :: v :: vs => (name, some (Text.join "=" (v :: vs)))
  | _ => (word, none)

/-- The short options joined in a word, and the words that are left after them. -/
def readShort (vocabulary : Vocabulary) (o : Options) (words : List String) :
    List Char → Option (Options × List String)
  | [] => some (o, words)
  | c :: cs => match vocabulary.lookup (String.ofList ['-', c]), cs, words with
    | some (.flag set), _, _ => readShort vocabulary (set o) words cs
    | some (.valued set), [], v :: words => some (set v o, words)
    | some (.valued set), c :: cs, words => some (set (String.ofList (c :: cs)) o, words)
    | _, _, _ => none

/-- The option that a word starts, and the words that are left after it. -/
def readOption (vocabulary : Vocabulary) (o : Options) (word : String) (words : List String) :
    Option (Options × List String) :=
  let (name, value) := assignment word
  let isLong := name.toList.length ≠ 2 || name.toList.head? ≠ some '-'
  match (if isLong then vocabulary.lookup name else none), value, words with
  | some (.flag set), none, words => some (set o, words)
  | some (.flag _), some _, _ => none
  | some (.valued set), some v, words => some (set v o, words)
  | some (.valued set), none, v :: words => some (set v o, words)
  | some (.valued _), none, [] => none
  | none, _, words =>
    match word.toList with
    | '-' :: '-' :: _ => none
    | _ :: cs => readShort vocabulary o words cs
    | [] => none

/-- The options and the other words of a command, in their order. -/
def readWords (vocabulary : Vocabulary) : Nat → Options → List String →
    Option (Options × List String)
  | 0, _, _ => none
  | _, o, [] => some (o, [])
  | fuel + 1, o, word :: words =>
    if word = "--" then some (o, words)
    else if isOption word then do
      let (o, words) ← readOption vocabulary o word words
      readWords vocabulary fuel o words
    else do
      let (o, rest) ← readWords vocabulary fuel o words
      some (o, word :: rest)

/-- Reads all words of a command. Each round takes at least one. -/
def readCommand (vocabulary : Vocabulary) (words : List String) :
    Option (Options × List String) :=
  readWords vocabulary (words.length + 1) Options.initial words

inductive Name where
  | check
  | apply
  | converters
  deriving DecidableEq, Repr

def names : List (String × Name) := [
  ("check", .check), ("apply", .apply), ("converters", .converters)]

def readRequest (name : Name) (words : List String) : Option Request :=
  match name with
  | .check => match readCommand shared words with
    | some (o, [mapping]) => some (.check mapping o)
    | _ => none
  | .apply => match readCommand (shared ++ output) words with
    | some (o, [mapping, inputs]) => some (.apply mapping inputs o)
    | _ => none
  | .converters => match readCommand [] words with
    | some (_, []) => some .converters
    | _ => none

/-- Whether a word consists of joined short options for more messages. -/
def isVerbose (word : String) : Bool :=
  word = "--verbose" ||
    (match word.toList with
      | '-' :: cs => cs ≠ [] && cs.all (· = 'v')
      | _ => false)

/-- A command line that names a command: whether more messages are asked for, and the request
unless the words after the command are refused. -/
structure Line where
  verbose : Bool
  request : Option Request
  deriving DecidableEq, Repr

/-- The words from the command on; the options before it may only ask for more messages. -/
def readLine (verbose : Bool) : List String → Option Line
  | [] => none
  | word :: words =>
    if word = "--" then match words with
      | name :: words => (names.lookup name).map fun n => ⟨verbose, readRequest n words⟩
      | [] => none
    else if isOption word then
      if isVerbose word then readLine true words else none
    else (names.lookup word).map fun n => ⟨verbose, readRequest n words⟩

/-- A line that names no command, or has other options before it, is refused as a whole. -/
def parse (words : List String) : Line := (readLine false words).getD ⟨false, none⟩

end Reshape.Command
