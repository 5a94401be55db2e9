import SpecLens.Glob.Reader
import SpecLens.Text.Position
import SpecLens.Text.Split

/-!
# Ignore files

The lines of an ignore file select paths below a directory. The last line that matches a path
decides what the file says of it.
-/

namespace SpecLens

open Text

/-- A line of an ignore file. -/
structure IgnoreRule where
  /-- The line readmits what it matches. -/
  readmits : Bool
  onlyDirectories : Bool
  glob : List GlobToken
deriving Repr, Inhabited

/-- What ignore files say of a path. -/
inductive Verdict where
  | ignored
  | readmitted
deriving DecidableEq, Repr, Inhabited

namespace IgnoreRule

/-- The line without its trailing blanks, the last of which can be kept by a backslash. -/
def cleanLine (line : List Char) : List Char :=
  if ['\\', ' '].isSuffixOf line then line else dropWhileEnd isBlank line

/-- The pattern that a rule's text stands for. Without an inner slash it applies at any depth, and
a double star at its end stands for what is below. -/
def globText (anchored : Bool) (cs : List Char) : List Char :=
  let cs :=
    if anchored || cs.contains '/' || ['*', '*', '/'].isPrefixOf cs || cs == ['*', '*'] then cs
    else ['*', '*', '/'] ++ cs
  if ['/', '*', '*'].isSuffixOf cs then cs ++ ['/', '*'] else cs

/-- Reads a line. Empty lines, comments and malformed patterns are no rules. -/
def read? (line : List Char) : Option IgnoreRule :=
  if line.head? = some '#' then none
  else
    let line := cleanLine line
    if line.isEmpty then none
    else
      let escaped := ['\\', '!'].isPrefixOf line || ['\\', '#'].isPrefixOf line
      let line := if escaped then line.drop 1 else line
      let readmits := !escaped && line.head? = some '!'
      let line := if readmits then line.drop 1 else line
      let anchored := line.head? = some '/'
      let line := if anchored && !escaped then line.drop 1 else line
      let onlyDirectories := line.getLast? = some '/'
      let line := if onlyDirectories then line.dropLast else line
      let line := if onlyDirectories && line.getLast? = some '\\' then line.dropLast else line
      (Glob.read? (globText anchored line)).map fun glob => ⟨readmits, onlyDirectories, glob⟩

/-- The texts of lines, up to the first one that is no text. -/
def textLines : List (List UInt8) → List (List Char)
  | [] => []
  | line :: rest =>
    match ofBytes? line with
    | some text => withoutBreak text.toList :: textLines rest
    | none => []

/-- The rules of an ignore file. A byte order mark at its start does not count. -/
def readAll (contents : List UInt8) : List IgnoreRule :=
  match textLines (lines contents) with
  | [] => []
  | first :: rest => (first.dropWhile (· == '\ufeff') :: rest).filterMap read?

/-- What rules say of the path that is `relative` to their directory. -/
def verdict? (rules : List IgnoreRule) (relative : List UInt8) (isDirectory : Bool) :
    Option Verdict :=
  (rules.reverse.find? fun r =>
    (isDirectory || !r.onlyDirectories) && Glob.isMatch r.glob relative).map fun r =>
      if r.readmits then .readmitted else .ignored

end IgnoreRule

end SpecLens
