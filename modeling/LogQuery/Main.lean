import LogQuery.Cli.Run

/-!
# The program

Reads the logs below the root that a command names, runs the command on them, and
writes what it gives.
-/

namespace LogQuery

open LogQuery.Store LogQuery.Cli

/-- How deep the layout of a store is: source, day, file. -/
def storeDepth : Nat := 3

/-- Why a file was not read. -/
def ioErrorOf : IO.Error → IoError
  | .permissionDenied _ code description => .device description code.toNat
  | .hardwareFault code description => .device description code.toNat
  | e => .device e.toString 0

/-- Reads a file, or notes why it cannot be read. -/
def readContent (entry : IO.FS.DirEntry) : IO Content := do
  try
    return (← IO.FS.readBinFile entry.path).toList
  catch e => return ⟨[], some (.opening (ioErrorOf e))⟩

/-- Reads an entry of a directory; a directory that cannot be listed is left out. -/
def readEntry : (depth : Nat) → IO.FS.DirEntry → IO (List (String × Node))
  | 0, _ => return []
  | depth + 1, entry => do
    try
      if ← entry.path.isDir then
        let inner ← (← entry.path.readDir).toList.mapM (readEntry depth)
        return [(entry.fileName, .directory inner.flatten)]
      else
        return [(entry.fileName, .file (← readContent entry))]
    catch _ => return []

/-- The store below a root, in a file system whose working directory is the current one. -/
def readStore (root : FilePath) : IO FileSystem := do
  let working := (FilePath.mk (← IO.currentDir).toString).components
  let fs : FileSystem := ⟨.directory [], working⟩
  let fs := fs.makeDirectory ⟨"."⟩
  try
    let place ← IO.FS.realPath root.text
    let inner ← (← place.readDir).toList.mapM (readEntry storeDepth)
    return fs.alter ⟨place.toString⟩ fun _ => some (.directory inner.flatten)
  catch _ => return fs

/-- Everything on the standard input. -/
partial def readInput (stream : IO.FS.Stream) : IO Text.Bytes := do
  let chunk ← stream.read 65536
  if chunk.isEmpty then return []
  return chunk.toList ++ (← readInput stream)

/-- How many files are scanned at once by default. -/
def processors : Nat := 4

/-- Runs a command line and gives the exit code. -/
def runProgram (arguments : List String) : IO UInt32 := do
  let action := Action.ofArguments processors arguments
  let (fs, input) ← match action with
    | .run (.query text root _ _) =>
      let input ← if text == "-" then readInput (← IO.getStdin) else pure []
      pure (← readStore root, input)
    | .run (.sources root) => pure (← readStore root, [])
    | _ => pure (⟨.directory [], []⟩, [])
  let outcome := action.perform processors fs input
  IO.print outcome.output
  IO.eprint outcome.errors
  return outcome.code.toUInt32

end LogQuery

def main (arguments : List String) : IO UInt32 := LogQuery.runProgram arguments
