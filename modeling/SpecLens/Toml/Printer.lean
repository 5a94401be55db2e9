/-!
# Printing TOML

Strings, arrays and sections in the layout meant for people: a string is quoted in the way that
needs no escapes if there is one, and an array of several items has a line for each.
-/

namespace SpecLens.Toml

/-- The length of the longest run of `c` in a text, of which `run` have just been passed. -/
def longestRun (c : Char) (run : Nat) : List Char → Nat
  | [] => run
  | d :: cs => if d = c then longestRun c (run + 1) cs else max run (longestRun c 0 cs)

/-- Control characters that only an escape can write; tabs and line breaks are none. -/
def needsEscape (c : Char) : Bool :=
  (c.toNat ≤ 0x1F && c != '\t' && c != '\n') || c.toNat == 0x7F

/-- The ways to quote a string. -/
inductive Quoting where
  | basic
  | literal
  | multiBasic
  | multiLiteral
deriving DecidableEq, Repr

/-- The first way of quoting that needs no escapes, or else one with escapes. -/
def Quoting.of (cs : List Char) : Quoting :=
  let escapes := cs.any needsEscape
  let backslash := cs.contains '\\'
  let newline := cs.contains '\n'
  let doubles := longestRun '"' 0 cs
  let singles := longestRun '\'' 0 cs
  if !escapes && !backslash && doubles == 0 && !newline then .basic
  else if !escapes && singles == 0 && !newline then .literal
  else if !escapes && !backslash && doubles ≤ 2 then .multiBasic
  else if !escapes && singles ≤ 2 then .multiLiteral
  else if newline then .multiBasic
  else .basic

def hexDigit (n : Nat) : Char :=
  if n < 10 then Char.ofNat ('0'.toNat + n) else Char.ofNat ('A'.toNat + (n - 10))

/-- The digits of a code point below 2 ^ 16. -/
def hexDigits (n : Nat) : List Char :=
  [hexDigit (n / 4096 % 16), hexDigit (n / 256 % 16), hexDigit (n / 16 % 16), hexDigit (n % 16)]

/-- A character between double quotes, other than a quote. -/
def escapeChar (multi : Bool) (c : Char) : List Char :=
  if c = '\\' then ['\\', '\\']
  else if c = '\t' then ['\\', 't']
  else if c = '\n' then (if multi then [c] else ['\\', 'n'])
  else if c = '\r' then ['\\', 'r']
  else if c.toNat = 8 then ['\\', 'b']
  else if c.toNat = 12 then ['\\', 'f']
  else if needsEscape c then '\\' :: 'u' :: hexDigits c.toNat
  else [c]

/-- The text between double quotes. In a multi-line string two quotes in a row may stand as they
are; `free` of them still may. -/
def escapeBody (multi : Bool) (free : Nat) : List Char → List Char
  | [] => []
  | c :: cs =>
    if c = '"' then
      match free with
      | n + 1 => '"' :: escapeBody multi n cs
      | 0 => '\\' :: '"' :: escapeBody multi (if multi then 2 else 0) cs
    else escapeChar multi c ++ escapeBody multi (if multi then 2 else 0) cs

/-- A string with its quotes. A string over several lines starts on a line of its own. -/
def printString (text : String) : String :=
  let cs := text.toList
  let lead := if cs.contains '\n' then ['\n'] else []
  String.ofList <| match Quoting.of cs with
    | .basic => '"' :: (escapeBody false 0 cs ++ ['"'])
    | .literal => '\'' :: (cs ++ ['\''])
    | .multiBasic => ['"', '"', '"'] ++ lead ++ escapeBody true 2 cs ++ ['"', '"', '"']
    | .multiLiteral => ['\'', '\'', '\''] ++ lead ++ cs ++ ['\'', '\'', '\'']

def printBool (b : Bool) : String := if b then "true" else "false"

/-- An array of strings: up to one item on the line, more of them on lines of their own. -/
def printArray (items : List String) : String :=
  match items with
  | [] => "[]"
  | [one] => "[" ++ printString one ++ "]"
  | several => "[" ++ String.join (several.map fun s => "\n    " ++ printString s ++ ",") ++ "\n]"

/-- A line with a key and a printed value. -/
def printPair (pair : String × String) : String := pair.1 ++ " = " ++ pair.2 ++ "\n"

/-- A section with its header. -/
def printSection (name : String) (pairs : List (String × String)) : String :=
  "[" ++ name ++ "]\n" ++ String.join (pairs.map printPair)

/-- Sections with blank lines between them. -/
def printSections (sections : List (String × List (String × String))) : String :=
  "\n".intercalate (sections.map fun s => printSection s.1 s.2)

end SpecLens.Toml
