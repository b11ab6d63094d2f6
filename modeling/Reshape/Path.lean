/-
  Reshape.Path: paths of files.

  A path is absolute or relative, with its parts; empty parts and single dots do not count. The
  suffix of a path is that of its last part from the last dot on, unless nothing stands before or
  after that dot. Resolving a path makes it absolute and takes each double dot back one part.
-/

import Reshape.Text.Casing
import Reshape.Text.Pieces

namespace Reshape

structure Path where
  /-- Empty for a relative path. -/
  root : String
  parts : List String
  deriving DecidableEq, Repr

namespace Path

def rootOf (cs : List Char) : String :=
  match cs.takeWhile (· = '/') with
  | [] => ""
  | ['/', '/'] => "//"
  | _ => "/"

def ofString (s : String) : Path :=
  ⟨rootOf s.toList, (Text.splitAt '/' s).filter fun p => p ≠ "" && p ≠ "."⟩

def text (p : Path) : String :=
  if p.root = "" ∧ p.parts = [] then "." else p.root ++ Text.join "/" p.parts

/-- Whether a part holds the character that ends paths. -/
def hasNull (p : Path) : Bool := p.parts.any fun part => part.toList.contains '\x00'

def startsWithNull (p : Path) : Bool := { p with parts := p.parts.take 1 }.hasNull

def name (p : Path) : String := p.parts.getLastD ""

/-- Where a path starts, unless it is relative. -/
def start (p : Path) : Path := { p with parts := [] }

def parent (p : Path) : Path := { p with parts := p.parts.dropLast }

/-- The suffix of a name: from its last dot on, if characters stand on both sides of that dot. -/
def suffixOf (cs : List Char) : List Char :=
  let after := cs.reverse.takeWhile (· ≠ '.')
  let before := (cs.reverse.dropWhile (· ≠ '.')).drop 1
  if after = [] ∨ before = [] then [] else '.' :: after.reverse

def suffix (p : Path) : String := String.ofList (suffixOf p.name.toList)

/-- The suffix in lower case, by which formats are chosen. -/
def format (p : Path) : String := String.ofList (Text.lower p.suffix.toList)

def climb (parts : List String) (part : String) : List String :=
  if part = ".." then parts.dropLast else parts ++ [part]

/-- The absolute path that a path means in a directory. -/
def resolve (directory p : Path) : Path :=
  if p.root = "" then { directory with parts := p.parts.foldl climb directory.parts }
  else { p with parts := p.parts.foldl climb [] }

/-- Whether `p` lies below `q`. -/
def isBelow (p q : Path) : Bool :=
  p.root = q.root && q.parts.isPrefixOf p.parts && q.parts.length < p.parts.length

end Path

end Reshape
