import SpecLens.Glob.Basic

/-!
# Reading glob patterns

A pattern is read branch by branch. `**` has its meaning only between slashes: what stands before
it counts within its own branch, and the slash before it goes into its token.
-/

namespace SpecLens

/-- A pattern while it is read. -/
structure GlobReader where
  /-- The tokens of the branch at hand, last first. -/
  tokens : List GlobToken
  /-- The character before `rest`. -/
  prev : Option Char
  rest : List Char
  /-- Brackets open classes; no longer behind one that is never closed. -/
  classes : Bool

namespace Glob

/-- The ranges of a class up to its closing bracket, last first, and what follows it. A bracket at
the start and a hyphen at either end stand for themselves. `inRange` tells that a hyphen waits for
the end of the last range. The outer `none` means that a range runs backwards, the inner one that
no bracket closes the class. -/
def readRanges (first inRange : Bool) (ranges : List (Char × Char)) :
    List Char → Option (Option (List (Char × Char) × List Char))
  | [] => some none
  | c :: cs =>
    if c = ']' ∧ first = false then
      some (some (if inRange then ('-', '-') :: ranges else ranges, cs))
    else if c = '-' ∧ first = false ∧ inRange = false then readRanges false true ranges cs
    else if inRange then
      match ranges with
      | (lo, _) :: rest =>
        if c < lo then none else readRanges false false ((lo, c) :: rest) cs
      | [] => none
    else readRanges false false ((c, c) :: ranges) cs

/-- The bytes that a range of characters stands for: only the byte before the hyphen and the one
behind it make up a range. -/
def byteRanges (range : Char × Char) : List (UInt8 × UInt8) :=
  let lo := String.utf8EncodeChar range.1
  let hi := String.utf8EncodeChar range.2
  let single (bs : List UInt8) := bs.map fun b => (b, b)
  if range.1 = range.2 then single lo
  else match lo.getLast?, hi with
    | some b, c :: rest => single lo.dropLast ++ (b, c) :: single rest
    | _, _ => []

/-- Reads a class after its opening bracket, with the meaning of `none` as in `readRanges`. -/
def readClass (cs : List Char) : Option (Option (GlobToken × List Char)) :=
  let negated := cs.head? == some '!' || cs.head? == some '^'
  (readRanges true false [] (if negated then cs.drop 1 else cs)).map fun read =>
    read.map fun (ranges, rest) =>
      (.byteClass negated (ranges.reverse.flatMap byteRanges), rest)

/-- Whether a branch consists of nothing but empty choices. -/
def isVoid (ts : List GlobToken) : Bool :=
  ts.all fun
    | .choice [] => true
    | _ => false

end Glob

namespace GlobReader

/-- Goes on with `rest` behind the character `last`. -/
def move (r : GlobReader) (last : Char) (rest : List Char) : GlobReader :=
  { r with prev := some last, rest }

/-- Adds a token. -/
def push (r : GlobReader) (t : GlobToken) : GlobReader := { r with tokens := t :: r.tokens }

/-- Adds the tokens of a character that stands for itself. -/
def pushChar (r : GlobReader) (c : Char) : GlobReader :=
  (String.utf8EncodeChar c).foldl (fun r b => r.push (.literal b)) r

/-- Puts a token in the place of the last one, unless that is a double star at the start. -/
def replaceLast (r : GlobReader) (t : GlobToken) : GlobReader :=
  match r.tokens with
  | .anyLead :: _ => r
  | before => { r with tokens := t :: before.tail }

/-- Whether a character separates the branches of a group. -/
def separatesBranches (nested : Bool) (c : Option Char) : Bool :=
  nested && (c == some ',' || c == some '\x7d')

/-- Reads a double star before `rest`. It is an ordinary star unless it stands at the start of its
branch or behind a slash, and before a slash or the end. -/
def double (nested : Bool) (r : GlobReader) (rest : List Char) : GlobReader :=
  let behind := r.prev == some '/' || (nested && (r.prev == some ',' || r.prev == some '\x7b'))
  if r.tokens.isEmpty && (rest.isEmpty || rest.head? == some '/') then
    (r.push .anyLead).move '/' rest.tail
  else if !r.tokens.isEmpty && behind && rest.head? == some '/' then
    (r.replaceLast .anyMiddle).move '/' rest.tail
  else if !r.tokens.isEmpty && behind &&
      (rest.isEmpty || separatesBranches nested rest.head?) then
    (r.replaceLast .anyTail).move '*' rest
  else (r.push .star).move '*' rest

/-- Reads what the character `c` before `rest` starts. A bracket that is never closed stands for
itself. -/
def step? (nested : Bool) (r : GlobReader) (c : Char) (rest : List Char) : Option GlobReader :=
  match c, rest with
  | '*', '*' :: rest => some (r.double nested rest)
  | '*', _ => some ((r.push .star).move '*' rest)
  | '?', _ => some ((r.push .any).move '?' rest)
  | '[', _ =>
    if r.classes then
      match Glob.readClass rest with
      | some (some (t, rest)) => some ((r.push t).move ']' rest)
      | some none => some { (r.pushChar '[').move '[' rest with classes := false }
      | none => none
    else some ((r.pushChar '[').move '[' rest)
  | '\\', c :: rest => some ((r.pushChar c).move c rest)
  | '\\', [] => none
  | c, _ => some ((r.pushChar c).move c rest)

mutual

/-- Reads the branch at hand up to its end, which is that of the pattern or, when `nested`, the
comma or the brace behind the branch. -/
def readBranch : Nat → Bool → GlobReader → Option GlobReader
  | 0, _, _ => none
  | fuel + 1, nested, r =>
    match r.rest with
    | [] => some r
    | c :: rest =>
      if separatesBranches nested (some c) then some r
      else if c = '\x7b' then do
        let (branches, group) ← readGroup fuel [] ({ r with tokens := [] }.move c rest)
        readBranch fuel nested { group with tokens := .choice branches :: r.tokens }
      else if c = '\x7d' then none
      else do readBranch fuel nested (← r.step? nested c rest)

/-- Reads a group behind its opening brace. `done` holds the branches read, last first; those that
are empty are left out of the group. -/
def readGroup : Nat → List (List GlobToken) → GlobReader →
    Option (List (List GlobToken) × GlobReader)
  | 0, _, _ => none
  | fuel + 1, done, r => do
    let r ← readBranch fuel true r
    let done := r.tokens.reverse :: done
    match r.rest with
    | ',' :: rest => readGroup fuel done ({ r with tokens := [] }.move ',' rest)
    | '\x7d' :: rest => some (done.reverse.filter fun ts => !Glob.isVoid ts, r.move '\x7d' rest)
    | _ => none

end

end GlobReader

namespace Glob

/-- A `**` that is a whole pattern matches everything. -/
def wholeLead : List GlobToken → List GlobToken
  | [.anyLead] => [.anyLead, .star]
  | ts => ts

/-- Reads a pattern. `none` means that it is malformed: a range of a class runs backwards, braces
do not match or a backslash has nothing to escape. -/
def read? (cs : List Char) : Option (List GlobToken) :=
  (GlobReader.readBranch (2 * cs.length + 1) false ⟨[], none, cs, true⟩).map fun r =>
    wholeLead r.tokens.reverse

end Glob

end SpecLens
