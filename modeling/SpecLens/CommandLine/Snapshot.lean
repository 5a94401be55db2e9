import SpecLens.Spec.Load

/-!
# Snapshots of a disk

A snapshot lists the files and directories that a command may look at, a line for each, and after
each source file the nodes of its syntax tree in source order:

    here PATH
    directory PATH
    file HEX PATH
    node FLAGS START STOP DEPTH KIND

`HEX` holds the bytes of a file in hexadecimal digits. Of the flags, 1 stands for a named node, 2
for the name of its parent, 4 for an error and 8 for a missing node.
-/

namespace SpecLens

open Text

/-- What is read of a snapshot: the disk, the sources with their trees, and the file that is being
read with the nodes seen so far, last first. -/
structure Snapshot where
  disk : Disk
  sources : List (String × Node)
  text : Option String
  nodes : List (Tag × Nat)

namespace Snapshot

def empty : Snapshot := ⟨⟨[], []⟩, [], none, []⟩

/-- The first word of a line and what follows the blank behind it. -/
def word (line : List Char) : List Char × List Char := (cutAt? [' '] line).getD (line, [])

/-- Takes in the tree of the file that was read last. -/
def settle (s : Snapshot) : Snapshot :=
  match s.text, Node.ofEntries? s.nodes.reverse with
  | some text, some root =>
    { s with sources := (text, root) :: s.sources, text := none, nodes := [] }
  | _, _ => { s with text := none, nodes := [] }

/-- The entry of a line for a node. -/
def nodeEntry? (line : List Char) : Option (Tag × Nat) := do
  let (flags, line) := word line
  let (start, line) := word line
  let (stop, line) := word line
  let (depth, kind) := word line
  let flags ← decimal? flags
  pure (⟨String.ofList kind, flags % 2 == 1, flags / 2 % 2 == 1, flags / 4 % 2 == 1,
    flags / 8 % 2 == 1, ← decimal? start, ← decimal? stop⟩, ← decimal? depth)

/-- Takes in a line; one of another form is passed over. -/
def addLine (s : Snapshot) (line : List Char) : Snapshot :=
  let (what, rest) := word line
  match String.ofList what with
  | "here" =>
    let names := s.disk.namesOf (Path.components ⟨String.ofList rest⟩)
    { s with disk := { s.disk.addDirectories names with here := names } }
  | "directory" => { s with disk := s.disk.makeDirectory ⟨String.ofList rest⟩ }
  | "file" =>
    let (hex, path) := word rest
    match hexBytes? hex with
    | some bytes =>
      let s := s.settle
      { s with
        disk := s.disk.write ⟨String.ofList path⟩ bytes
        text := ofBytes? bytes }
    | none => s
  | "node" =>
    match nodeEntry? rest with
    | some entry => { s with nodes := entry :: s.nodes }
    | none => s
  | _ => s

/-- The tree of a text that no snapshot has: a root without children. -/
def bareTree (text : String) : Node :=
  .node ⟨"source_file", true, false, false, false, 0, text.utf8ByteSize⟩ []

/-- Reads a snapshot for a program with the given environment. -/
def read (env : Environment) (text : List Char) : World :=
  let s := ((splitAt '\n' text).foldl addLine empty).settle
  ⟨s.disk, env, fun text => ((s.sources.find? (·.1 == text)).map (·.2)).getD (bareTree text)⟩

end Snapshot

end SpecLens
