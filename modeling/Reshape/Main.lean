/-
  Reshape.Main: the command line.

  The files that a command may read or write are taken from the disk into a workspace, together with
  the directories above them. The command runs there, and what it has written is put back on the
  disk. Messages go to the error output. The exit code is 0 for a command that ends well, 2 for one
  that is refused and 1 for one that fails otherwise.
-/

import Reshape.Command
import Reshape.Host.Plain

namespace Reshape.Disk

def readBytes? (path : String) : IO (Option (List UInt8)) := do
  try pure (some (← IO.FS.readBinFile path).toList)
  catch _ => pure none

def isDirectoryOnDisk (path : String) : IO Bool := do
  try (← IO.FS.realPath path).isDir
  catch _ => pure false

/-- Adds what is on the disk under a resolved path. -/
def addPath (w : Workspace) (path : Path) : IO Workspace := do
  if ← isDirectoryOnDisk path.text then
    pure { w with directories := path :: w.directories }
  else match ← readBytes? path.text with
    | some bytes => pure { w with files := (path, bytes) :: w.files }
    | none => pure w

/-- The paths in the workspace that a word of the command line can mean. -/
def resolvedPaths (w : Workspace) (word : String) : List Path :=
  let path := Path.ofString word
  [w.resolve path, w.resolve ((w.expandHome? path).getD path)]

/-- The path and the directories above it. -/
def withParents (path : Path) : List Path :=
  (List.range (path.parts.length + 1)).map fun n => { path with parts := path.parts.take n }

def workspaceOf (request : Command.Request) : IO Workspace := do
  let home ← IO.getEnv "HOME"
  let directory := Path.ofString (← IO.currentDir).toString
  let empty : Workspace :=
    ⟨[], [], directory, (home.map fun h => ("~", Path.ofString h)).toList⟩
  let words := request.sources ++ request.destination?.toList
  ((words.flatMap (resolvedPaths empty)).flatMap withParents).foldlM addPath empty

/-- Puts on the disk what a command has made and written. -/
def store (before after : Workspace) : IO Unit := do
  for path in after.directories do
    if !before.directories.contains path then IO.FS.createDirAll path.text
  for (path, bytes) in after.files do
    if before.files.lookup path ≠ some bytes then
      IO.FS.writeBinFile path.text (ByteArray.mk bytes.toArray)

end Reshape.Disk

namespace Reshape.Command

def reportFailure (failure : Failure) : IO UInt32 := do
  match failure with
  | .usage => IO.eprintln "Usage: maptools [--verbose] check|apply|converters ..."; pure 2
  | .rejected message => IO.eprintln ("Error: Invalid value: " ++ message); pure 2
  | .escaped fault => IO.eprintln ("Error: " ++ fault.message); pure 1

/-- Runs a command line on the disk and gives the exit code. -/
def execute (words : List String) : IO UInt32 := do
  let line := Host.plain.parse words
  let environment ← IO.getEnv "MAPTOOLS_LOG_LEVEL"
  let settings := Log.Settings.bare.withLogger environment
  let settings := if line.verbose then { settings with level := .number Log.debug } else settings
  match line.request with
  | none => reportFailure .usage
  | some request =>
    let w ← Disk.workspaceOf request
    for record in log .plain Catalogue.builtin w request do
      IO.eprint (settings.written record.logger record.level record.message)
    let report := run .plain Catalogue.builtin w words
    Disk.store w report.workspace
    IO.print report.printed
    match report.failure with
    | none => pure 0
    | some failure => reportFailure failure

end Reshape.Command

def main (words : List String) : IO UInt32 := Reshape.Command.execute words
