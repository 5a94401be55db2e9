import SpecLens.Disk.Path
import SpecLens.Text.Position

/-!
# Disks

A disk holds files and directories under absolute lists of names. Paths are followed name by name
from the root or the working directory.
-/

namespace SpecLens

/-- Why a path cannot be followed or read. -/
inductive DiskError where
  | notFound
  | notADirectory
  | isADirectory
  | nameTooLong
  | nulInPath
  | invalidText
deriving DecidableEq, Repr, Inhabited

def DiskError.message : DiskError → String
  | notFound => "No such file or directory (os error 2)"
  | notADirectory => "Not a directory (os error 20)"
  | isADirectory => "Is a directory (os error 21)"
  | nameTooLong => "File name too long (os error 36)"
  | nulInPath => "file name contained an unexpected NUL byte"
  | invalidText => "stream did not contain valid UTF-8"

/-- What stands under a list of names. -/
inductive Entry where
  | file (contents : List UInt8)
  | directory
deriving DecidableEq, Inhabited

/-- The files and directories, each under its names from the root on. The root always exists. -/
structure Disk where
  entries : List (List String × Entry)
  /-- The names of the working directory. -/
  here : List String
deriving Inhabited

namespace Disk

/-- What stands under the given names. -/
def find? (d : Disk) (names : List String) : Option Entry :=
  if names = [] then some .directory
  else (d.entries.find? (·.1 == names)).map (·.2)

/-- The longest name that a file or directory can have, in bytes. -/
def maxNameLength : Nat := 255

/-- One step along a path, from a place that exists. -/
def step (d : Disk) (names : List String) (segment : List Char) : Except DiskError (List String) :=
  match d.find? names with
  | some .directory =>
    match Path.component? segment with
    | none => .ok names
    | some .up => .ok names.dropLast
    | some (.name text) =>
      if maxNameLength < text.utf8ByteSize then .error .nameTooLong
      else if (d.find? (names ++ [text])).isSome then .ok (names ++ [text])
      else .error .notFound
    | some _ => .ok names
  | _ => .error .notADirectory

/-- The place that a path starts from. -/
def origin (d : Disk) (p : Path) : Except DiskError (List String) :=
  if p.text.toList.contains '\x00' then .error .nulInPath
  else if p.text.isEmpty then .error .notFound
  else .ok (if p.isAbsolute then [] else d.here)

/-- The longest path that a file can be opened under, in bytes. -/
def maxPathLength : Nat := 4095

/-- The place that a path starts from, if it is short enough to be opened. -/
def start (d : Disk) (p : Path) : Except DiskError (List String) := do
  let names ← d.origin p
  if maxPathLength < p.text.utf8ByteSize then .error .nameTooLong else .ok names

/-- The names of what a path leads to. -/
def follow (d : Disk) (p : Path) : Except DiskError (List String) := do
  p.segments.foldlM d.step (← d.start p)

/-- The names of what a path leads to when it is followed bit by bit, so that its length does not
matter. -/
def resolve (d : Disk) (p : Path) : Except DiskError (List String) := do
  p.segments.foldlM d.step (← d.origin p)

/-- The path without `.`, `..` and repeated slashes, from the root on. -/
def canonical (d : Disk) (p : Path) : Except DiskError Path :=
  (d.resolve p).map .ofNames

def entry (d : Disk) (p : Path) : Except DiskError Entry := do
  let names ← d.follow p
  match d.find? names with
  | some e => .ok e
  | none => .error .notFound

def exists? (d : Disk) (p : Path) : Bool := (d.entry p).isOk

def isDirectory (d : Disk) (p : Path) : Bool :=
  match d.entry p with
  | .ok .directory => true
  | _ => false

def isFile (d : Disk) (p : Path) : Bool :=
  match d.entry p with
  | .ok (.file _) => true
  | _ => false

/-- The size that a directory reports. -/
def directorySize : Nat := 4096

def size (d : Disk) (p : Path) : Except DiskError Nat :=
  (d.entry p).map fun
    | .file contents => contents.length
    | .directory => directorySize

def read (d : Disk) (p : Path) : Except DiskError (List UInt8) := do
  match ← d.entry p with
  | .file contents => .ok contents
  | .directory => .error .isADirectory

def readText (d : Disk) (p : Path) : Except DiskError String := do
  match Text.ofBytes? (← d.read p) with
  | some text => .ok text
  | none => .error .invalidText

/-- The names a path would have if everything along it existed. -/
def namesOf (d : Disk) (components : List Component) : List String :=
  components.foldl
    (fun names c => match c with
      | .root => []
      | .here => names
      | .up => names.dropLast
      | .name text => names ++ [text])
    d.here

/-- The disk without what stands under the given names or below them. -/
def removeNames (d : Disk) (names : List String) : Disk :=
  { d with entries := d.entries.filter fun e => !names.isPrefixOf e.1 }

/-- The disk with the directories along the given names. -/
def addDirectories (d : Disk) (names : List String) : Disk :=
  (List.range names.length).foldl
    (fun d n =>
      let names := names.take (n + 1)
      if (d.find? names).isSome then d
      else { d with entries := (names, .directory) :: d.entries })
    d

/-- The disk with the directories that a path leads through. -/
def addAlong (d : Disk) (components : List Component) : Disk :=
  (List.range (components.length + 1)).foldl
    (fun d n => d.addDirectories (d.namesOf (components.take n))) d

/-- Writes a file, along with the directories on the way to it. -/
def write (d : Disk) (p : Path) (contents : List UInt8) : Disk :=
  let names := d.namesOf p.components
  let d := (d.removeNames names).addAlong p.components.dropLast
  { d with entries := (names, .file contents) :: d.entries }

def makeDirectory (d : Disk) (p : Path) : Disk := d.addAlong p.components

/-- Deletes the file that a path leads to, or the directory with all it holds. -/
def remove (d : Disk) (p : Path) : Disk :=
  match d.follow p with
  | .ok names => d.removeNames names
  | .error _ => d

/-- The disk with the file `name` in a directory, created if there is none, as opening it to append
does. -/
def touchIn (d : Disk) (directory : List String) (name : List Char) : Except DiskError Disk :=
  match d.step directory name with
  | .ok names =>
    match d.find? names with
    | some (.file _) => .ok d
    | _ => .error .isADirectory
  | .error .notFound => .ok (d.write (.ofNames (directory ++ [String.ofList name])) [])
  | .error e => .error e

/-- Creates a file if there is none, as opening it to append does. No file is created under a path
that ends with a slash. -/
def touch (d : Disk) (p : Path) : Except DiskError Disk := do
  let start ← d.start p
  match (p.segments.reverse.dropWhile (·.isEmpty)) with
  | [] => .error .isADirectory
  | name :: before =>
    let directory ← before.reverse.foldlM d.step start
    match d.find? directory with
    | some .directory =>
      if p.text.toList.getLast? == some '/' then .error .isADirectory
      else d.touchIn directory name
    | _ => .error .notADirectory

end Disk

end SpecLens
