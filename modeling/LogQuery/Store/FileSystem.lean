import LogQuery.Store.FilePath
import LogQuery.Text.Utf8

/-!
# Files and directories

A file system is a tree and a working directory in it, where relative paths start.
Looking up a path goes from directory to directory; `..` goes back the way it
came, and at the top it stays there. Reading a file may fail when it is opened or
after some of its bytes. Left out are links, entries that are neither files nor
directories, names that are no text, and directories that cannot be listed.
-/

namespace LogQuery.Store

open LogQuery.Text

/-- Why a file cannot be read. Any error but those of paths may come from a device. -/
inductive IoError
  | notFound
  | notADirectory
  | isADirectory
  | nameTooLong
  | zeroInName
  | device (description : String) (code : Nat)
deriving DecidableEq, Repr

def IoError.message : IoError → String
  | notFound => "No such file or directory (os error 2)"
  | notADirectory => "Not a directory (os error 20)"
  | isADirectory => "Is a directory (os error 21)"
  | nameTooLong => "File name too long (os error 36)"
  | zeroInName => "file name contained an unexpected NUL byte"
  | device description code => description ++ " (os error " ++ toString code ++ ")"

/-- What keeps a file from being read to its end: it does not open, or reading fails
once so many bytes are read. -/
inductive Fault
  | opening (e : IoError)
  | reading (after : Nat) (e : IoError)
deriving DecidableEq, Repr

/-- What is stored of a file: its bytes, and what keeps them from being read, if anything does. -/
structure Content where
  bytes : Bytes
  fault : Option Fault
deriving DecidableEq, Repr, Inhabited

/-- Bytes are the content of a file that can be read. -/
instance : Coe Bytes Content := ⟨fun bytes => ⟨bytes, none⟩⟩

/-- What can be read of a file that is open, and why reading fails after it, if it does. -/
structure Opened where
  bytes : Bytes
  failure : Option IoError
deriving DecidableEq, Repr

def Content.opened (c : Content) : Except IoError Opened :=
  match c.fault with
  | none => .ok ⟨c.bytes, none⟩
  | some (.opening e) => .error e
  | some (.reading after e) => .ok ⟨c.bytes.take after, some e⟩

inductive Node
  | file (content : Content)
  | directory (entries : List (String × Node))
deriving Repr, Inhabited

namespace Node

def isDirectory : Node → Bool
  | file _ => false
  | directory _ => true

def entries : Node → List (String × Node)
  | file _ => []
  | directory es => es

/-- The longest name of a file, in bytes. -/
def maxNameLength : Nat := 255

/-- Follows the parts of a path; `above` holds the directories passed, nearest first. -/
def walk : (above : List Node) → Node → List String → Except IoError (List Node × Node)
  | above, node, [] => .ok (above, node)
  | _, file _, _ :: _ => .error .notADirectory
  | above, directory es, part :: parts =>
    if FilePath.isIdle part then walk above (directory es) parts
    else if part == ".." then
      match above with
      | [] => walk [] (directory es) parts
      | parent :: rest => walk rest parent parts
    else if part.utf8ByteSize > maxNameLength then .error .nameTooLong
    else
      match es.lookup part with
      | none => .error .notFound
      | some child => walk (directory es :: above) child parts

/-- Entries with the one of a name replaced or added. -/
def setEntry (name : String) (node : Node) : List (String × Node) → List (String × Node)
  | [] => [(name, node)]
  | (n, old) :: es => if n == name then (n, node) :: es else (n, old) :: setEntry name node es

/-- The tree with what is at some parts changed; directories on the way are made. -/
def alter (change : Option Node → Option Node) : List String → Option Node → Option Node
  | [], node => change node
  | part :: parts, node =>
    let es := (node.map entries).getD []
    match alter change parts (es.lookup part) with
    | some child => some (directory (setEntry part child es))
    | none => some (directory (es.filter fun (n, _) => n != part))

end Node

structure FileSystem where
  top : Node
  working : List String
deriving Repr, Inhabited

namespace FileSystem

/-- A path has fewer bytes than this. -/
def pathLimit : Nat := 4096

/-- The node at a path. -/
def node (fs : FileSystem) (p : FilePath) : Except IoError Node := do
  if p.text.toList.contains '\x00' then throw .zeroInName
  if p.text.isEmpty then throw .notFound
  if p.text.utf8ByteSize ≥ pathLimit then throw .nameTooLong
  let (above, start) ← if p.isAbsolute then .ok ([], fs.top) else fs.top.walk [] fs.working
  let (_, found) ← start.walk above p.parts
  return found

/-- Opens a file. A directory opens as well, but reading it fails at once. -/
def openFile (fs : FileSystem) (p : FilePath) : Except IoError Opened :=
  match fs.node p with
  | .error e => .error e
  | .ok (.directory _) => .ok ⟨[], some .isADirectory⟩
  | .ok (.file content) => content.opened

/-- The bytes of a file that can be read to its end. -/
def read (fs : FileSystem) (p : FilePath) : Except IoError Bytes :=
  match fs.openFile p with
  | .error e => .error e
  | .ok ⟨bytes, none⟩ => .ok bytes
  | .ok ⟨_, some e⟩ => .error e

/-- The bytes that a file holds, whether or not they can be read. -/
def bytes? (fs : FileSystem) (p : FilePath) : Option Bytes :=
  match fs.node p with
  | .ok (.file content) => some content.bytes
  | _ => none

theorem read_eq_ok {fs : FileSystem} {p : FilePath} {bytes : Bytes} :
    fs.read p = .ok bytes ↔ fs.openFile p = .ok ⟨bytes, none⟩ := by
  unfold read
  split <;> simp_all

theorem bytes?_of_read {fs : FileSystem} {p : FilePath} {bytes : Bytes} (h : fs.read p = .ok bytes) :
    fs.bytes? p = some bytes := by
  rw [read_eq_ok, openFile] at h
  rw [bytes?]
  split at h
  next => cases h
  next => cases h
  next content hnode =>
    unfold Content.opened at h
    split at h <;> simp_all

theorem read_of_not_opened {fs : FileSystem} {p : FilePath} {e : IoError}
    (h : fs.openFile p = .error e) : fs.read p = .error e := by
  rw [read, h]

theorem read_of_failure {fs : FileSystem} {p : FilePath} {file : Opened} {e : IoError}
    (h : fs.openFile p = .ok file) (hf : file.failure = some e) : fs.read p = .error e := by
  obtain ⟨bytes, failure⟩ := file
  cases hf
  rw [read, h]

/-- The entries of a directory, directories or files only, in the order of their
names; none if it cannot be read. -/
def entriesOf (fs : FileSystem) (p : FilePath) (directories : Bool) : List (String × FilePath) :=
  match fs.node p with
  | .error _ => []
  | .ok n =>
    let names := (n.entries.filter fun (_, child) => child.isDirectory == directories).map Prod.fst
    (names.mergeSort fun a b => a ≤ b).map fun name => (name, p.join name)

/-- The components of a path from the top, where no part of it is `..`. -/
def fromTop (fs : FileSystem) (p : FilePath) : List String :=
  (if p.isAbsolute then [] else fs.working) ++ p.parts.filter fun part => !FilePath.isIdle part

def alter (fs : FileSystem) (p : FilePath) (change : Option Node → Option Node) : FileSystem :=
  { fs with top := (Node.alter change (fs.fromTop p) (some fs.top)).getD (.directory []) }

/-- Gives a file its bytes. -/
def write (fs : FileSystem) (p : FilePath) (bytes : Bytes) : FileSystem :=
  fs.alter p fun _ => some (.file bytes)

/-- Adds to the end of a file. -/
def append (fs : FileSystem) (p : FilePath) (bytes : Bytes) : FileSystem :=
  fs.alter p fun
    | some (.file old) => some (.file { old with bytes := old.bytes ++ bytes })
    | _ => some (.file bytes)

def makeDirectory (fs : FileSystem) (p : FilePath) : FileSystem :=
  fs.alter p fun
    | some (.directory es) => some (.directory es)
    | _ => some (.directory [])

def remove (fs : FileSystem) (p : FilePath) : FileSystem := fs.alter p fun _ => none

end FileSystem

end LogQuery.Store
