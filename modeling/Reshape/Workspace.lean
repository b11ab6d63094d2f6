/-
  Reshape.Workspace: the files that a command can read and write.

  A file has an absolute path and holds bytes. A directory is there if it was made or if anything
  lies below it. A path is followed part by part: a double dot goes back one directory, and any
  part but the last must lead to a directory. Writing a file makes the directories above it and
  replaces what it held.
-/

import Reshape.Entries
import Reshape.Path
import Reshape.Text.Quoted

namespace Reshape

structure Workspace where
  files : List (Path × List UInt8)
  /-- Directories that are there even if nothing lies below them. -/
  directories : List Path
  /-- The directory in which relative paths are resolved. -/
  directory : Path
  /-- The home directories, under `~` or `~` and a name. -/
  homes : List (String × Path)

inductive FileFault where
  | missing (path : String)
  | exists (path : String)
  | notADirectory (path : String)
  | isADirectory (path : String)
  | nameTooLong (path : String)
  /-- A path holds the character that ends paths. -/
  | embeddedNull
  /-- A table is to be saved where there is no directory. -/
  | noDirectory (path : String)
  deriving DecidableEq, Repr

def FileFault.message : FileFault → String
  | .missing path => "[Errno 2] No such file or directory: " ++ Text.quoted path
  | .exists path => "[Errno 17] File exists: " ++ Text.quoted path
  | .notADirectory path => "[Errno 20] Not a directory: " ++ Text.quoted path
  | .isADirectory path => "[Errno 21] Is a directory: " ++ Text.quoted path
  | .nameTooLong path => "[Errno 36] File name too long: " ++ Text.quoted path
  | .embeddedNull => "embedded null byte"
  | .noDirectory path => s!"Cannot save file into a non-existent directory: '{path}'"

/-- What a path leads to: a file, a directory, or a name that is free in a directory. -/
inductive Place where
  | file (path : Path)
  | directory (path : Path)
  | free (path : Path)
  deriving DecidableEq, Repr

/-- Why a path leads nowhere. -/
inductive WalkFault where
  | missing
  | notADirectory
  | nameTooLong
  deriving DecidableEq, Repr

def WalkFault.at (fault : WalkFault) (p : Path) : FileFault :=
  match fault with
  | .missing => .missing p.text
  | .notADirectory => .notADirectory p.text
  | .nameTooLong => .nameTooLong p.text

namespace Workspace

def resolve (w : Workspace) (p : Path) : Path := Path.resolve w.directory p

/-- The path with a home directory at its start written out; `none` if there is no such home. -/
def expandHome? (w : Workspace) (p : Path) : Option Path :=
  match p.root, p.parts with
  | "", part :: parts =>
    if part.toList.head? = some '~' then
      (w.homes.lookup part).map fun home => { home with parts := home.parts ++ parts }
    else some p
  | _, _ => some p

/-! ## Following paths -/

def hasDirectory (w : Workspace) (p : Path) : Bool :=
  p = w.directory || w.directories.contains p || p.parts = [] || w.directory.isBelow p ||
    w.directories.any (·.isBelow p) || (Entries.keys w.files).any (·.isBelow p)

def placeOf (w : Workspace) (p : Path) : Place :=
  if (w.files.lookup p).isSome then .file p
  else if w.hasDirectory p then .directory p
  else .free p

/-- Longer names are refused. -/
def nameLimit : Nat := 255

/-- Paths of this length or more are refused. -/
def pathLimit : Nat := 4096

def step (w : Workspace) (place : Place) (part : String) : Except WalkFault Place :=
  match place with
  | .free _ => .error .missing
  | .file _ => .error .notADirectory
  | .directory p =>
    if part = ".." then .ok (.directory p.parent)
    else if nameLimit < part.utf8ByteSize then .error .nameTooLong
    else .ok (w.placeOf { p with parts := p.parts ++ [part] })

/-- Follows a path from a directory. -/
def locateFrom (w : Workspace) (directory p : Path) : Except WalkFault Place :=
  if pathLimit ≤ p.text.utf8ByteSize then .error .nameTooLong
  else p.parts.foldlM w.step (.directory directory)

def locate (w : Workspace) (p : Path) : Except WalkFault Place :=
  w.locateFrom (if p.root = "" then w.directory else p.start) p

/-- Follows a path that was resolved before. -/
def locateResolved (w : Workspace) (p : Path) : Except WalkFault Place := w.locateFrom p.start p

def contents? (w : Workspace) (p : Path) : Option (List UInt8) :=
  match w.locate p with
  | .ok (.file q) => w.files.lookup q
  | _ => none

/-! ## Writing -/

/-- Makes one directory, unless it is there; gives the workspace after that, and why it is not made. -/
def makeOne (w : Workspace) (p : Path) : Workspace × Option FileFault :=
  match w.locate p with
  | .ok (.directory _) => (w, none)
  | .ok (.file _) => (w, some (.exists p.text))
  | .ok (.free q) => ({ w with directories := w.directories ++ [q] }, none)
  | .error fault => (w, some (fault.at p))

/-- Makes a directory, and those above it first if they are missing; `n` parts are above. Those that
were made stay if it cannot be made itself. -/
def makeDirectories : Nat → Workspace → Path → Workspace × Option FileFault
  | 0, w, p => w.makeOne p
  | n + 1, w, p => match w.locate p with
    | .error .missing => match makeDirectories n w p.parent with
      | (w, none) => w.makeOne p
      | (w, some fault) => (w, some fault)
    | _ => w.makeOne p

def makeDirectory (w : Workspace) (p : Path) : Workspace × Option FileFault :=
  if p.hasNull then (w, some .embeddedNull) else makeDirectories p.parts.length w p

/-- Writes a file in a directory that is there. -/
def put (w : Workspace) (p : Path) (bytes : List UInt8) : Except FileFault Workspace :=
  if p.hasNull then .error .embeddedNull
  else match w.locate p with
    | .ok (.file q) | .ok (.free q) => .ok { w with files := Entries.put q bytes w.files }
    | .ok (.directory _) => .error (.isADirectory p.text)
    | .error fault => .error (fault.at p)

end Workspace

end Reshape
