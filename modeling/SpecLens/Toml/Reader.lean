import SpecLens.Toml.Scalar

/-!
# Reading TOML documents

Keys, values that hold others, and the headers that open tables. Each table and each key is
defined once.
-/

namespace SpecLens.Toml

/-- The characters of a key without quotes. -/
def isKeyChar (c : Char) : Bool := c.isAlphanum || c == '_' || c == '-'

/-- Reads one segment of a key. -/
def segment? (cs : List Char) : Option (String × List Char) :=
  match cs with
  | [] => none
  | c :: _ =>
    if c = '"' ∨ c = '\'' then (lineString? cs).map fun (text, rest) => (String.ofList text, rest)
    else
      let name := cs.takeWhile isKeyChar
      if name.isEmpty then none else some (String.ofList name, cs.dropWhile isKeyChar)

/-- The greatest number of segments of a key, and of values around a value. -/
def maxDepth : Nat := 79

/-- Reads a dotted key of at most the given number of segments, with the blanks around it. -/
def key? : Nat → List Char → Option (List String × List Char)
  | 0, _ => none
  | n + 1, cs =>
    (segment? (skipSpace cs)).bind fun (name, rest) =>
      match skipSpace rest with
      | '.' :: rest => (key? n rest).map fun (names, rest) => (name :: names, rest)
      | rest => some ([name], rest)

/-- A reader of values. -/
abbrev ValueReader := List Char → Option (Value × List Char)

/-- Reads a key and, after an equals sign, its value. -/
def pair? (value : ValueReader) (cs : List Char) :
    Option ((List String × String × Value) × List Char) := do
  let (names, rest) ← key? maxDepth cs
  let rest ← after? '=' rest
  let (v, rest) ← value (skipSpace rest)
  let name ← names.getLast?
  pure ((names.dropLast, name, v), rest)

/-- What follows blanks, line breaks and comments; `fuel` is at least the number of characters. -/
def skipFiller : Nat → List Char → List Char
  | 0, cs => cs
  | fuel + 1, cs =>
    match skipComment (skipSpace cs) with
    | '\n' :: rest => skipFiller fuel rest
    | '\r' :: '\n' :: rest => skipFiller fuel rest
    | rest => rest

def filler (cs : List Char) : List Char := skipFiller cs.length cs

/-- Reads the items of an array up to its bracket. -/
def items? (value : ValueReader) : Nat → List Char → Option (List Value × List Char)
  | 0, _ => none
  | fuel + 1, cs =>
    match filler cs with
    | ']' :: rest => some ([], rest)
    | cs =>
      (value cs).bind fun (v, rest) =>
        match filler rest with
        | ']' :: rest => some ([v], rest)
        | ',' :: rest => (items? value fuel rest).map fun (vs, rest) => (v :: vs, rest)
        | _ => none

/-- Reads the pairs of an inline table after the first one or a comma. -/
def pairs? (value : ValueReader) : Nat → Table → List Char → Option (Table × List Char)
  | 0, _, _ => none
  | fuel + 1, t, cs =>
    (pair? value cs).bind fun ((path, name, v), rest) =>
      (t.insert path name v).bind fun t =>
        match skipSpace rest with
        | '\x7d' :: rest => some (t, rest)
        | ',' :: rest => pairs? value fuel t rest
        | _ => none

/-- Reads a value with at most the given number of values around each other in it. -/
def value? : Nat → ValueReader
  | 0, cs => scalar? cs
  | depth + 1, cs =>
    match cs with
    | '[' :: rest => (items? (value? depth) cs.length rest).map fun (vs, rest) => (.array vs, rest)
    | '\x7b' :: rest =>
      match skipSpace rest with
      | '\x7d' :: rest => some (.table [], rest)
      | rest =>
        (pairs? (value? depth) cs.length .defined rest).map fun (t, rest) =>
          (t.toItem.toValue, rest)
    | cs => scalar? cs

/-- A document that is being read: the tables that are complete, and the open one with its path
and whether it is an element of an array. -/
structure Draft where
  root : Table
  path : List String
  isElement : Bool
  table : Table
deriving Inhabited

namespace Draft

def empty : Draft := ⟨.defined, [], false, .defined⟩

/-- Puts the open table into its place. -/
def close (d : Draft) : Option Table :=
  match d.path.getLast? with
  | none => some d.table
  | some name =>
    Table.modify false
      (fun t =>
        if d.isElement then
          match t.find? name with
          | none => some (t.set name (.tables [d.table.entries]))
          | some (.tables elements) => some (t.set name (.tables (elements ++ [d.table.entries])))
          | some _ => none
        else
          match t.find? name with
          | none => some (t.set name d.table.toItem)
          | some (.table true _ _) => some (t.set name d.table.toItem)
          | some _ => none)
      d.path.dropLast d.root

/-- Opens the table of a header. One that was only led through so far keeps its entries. -/
def openTable (d : Draft) (path : List String) : Option Draft := do
  let root ← d.close
  let name ← path.getLast?
  let found ← Table.lookup? root path.dropLast name
  match found with
  | none => pure ⟨root, path, false, .defined⟩
  | some (.table true false entries) =>
    let root ← Table.modify false (fun t => some (t.erase name)) path.dropLast root
    pure ⟨root, path, false, ⟨false, false, entries⟩⟩
  | some _ => none

/-- Opens a new element of an array of tables. -/
def openElement (d : Draft) (path : List String) : Option Draft := do
  let root ← d.close
  let name ← path.getLast?
  match ← Table.lookup? root path.dropLast name with
  | none => pure ⟨root, path, true, .defined⟩
  | some (.tables _) => pure ⟨root, path, true, .defined⟩
  | some _ => none

/-- Reads a header after its first bracket. -/
def header? (d : Draft) (cs : List Char) : Option (Draft × List Char) :=
  match cs with
  | '[' :: cs => do
    let (path, rest) ← key? maxDepth cs
    let rest ← after? ']' rest
    let rest ← after? ']' rest
    let rest ← afterLine? rest
    pure (← d.openElement path, rest)
  | cs => do
    let (path, rest) ← key? maxDepth cs
    let rest ← after? ']' rest
    let rest ← afterLine? rest
    pure (← d.openTable path, rest)

/-- Reads a key and its value on a line. -/
def pairLine? (d : Draft) (cs : List Char) : Option (Draft × List Char) := do
  let ((path, name, v), rest) ← pair? (value? maxDepth) cs
  let rest ← afterLine? rest
  let table ← d.table.insert path name v
  pure ({ d with table }, rest)

/-- Reads the rest of a document line by line. -/
def readLines : Nat → Draft → List Char → Option Draft
  | 0, _, _ => none
  | fuel + 1, d, cs =>
    match skipSpace cs with
    | [] => some d
    | '#' :: rest => (afterLine? ('#' :: rest)).bind (readLines fuel d)
    | '\n' :: rest => readLines fuel d rest
    | '\r' :: rest => (afterBreak? ('\r' :: rest)).bind (readLines fuel d)
    | '[' :: rest => (d.header? rest).bind fun (d, rest) => readLines fuel d rest
    | rest => (d.pairLine? rest).bind fun (d, rest) => readLines fuel d rest

end Draft

/-- Reads a document into the entries of its root table. -/
def read? (text : List Char) : Option (List (String × Value)) := do
  let cs := if text.head? = some '\ufeff' then text.tail else text
  let draft ← Draft.empty.readLines (cs.length + 1) cs
  let root ← draft.close
  pure (entriesToValues root.entries)

end SpecLens.Toml
