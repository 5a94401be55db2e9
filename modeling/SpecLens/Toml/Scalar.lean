import SpecLens.Text.Numeral
import SpecLens.Toml.Value

/-!
# TOML scalars

Readers for blanks, strings, numbers and dates. A reader takes a text and yields what it read
together with what follows, or nothing if the text is malformed.
-/

namespace SpecLens.Toml

open Text (hexValue?)

def isSpace (c : Char) : Bool := c == ' ' || c == '\t'

def skipSpace (cs : List Char) : List Char := cs.dropWhile isSpace

/-- What follows a line break. -/
def afterBreak? : List Char → Option (List Char)
  | '\n' :: cs => some cs
  | '\r' :: '\n' :: cs => some cs
  | _ => none

/-- The characters of a comment: all but control characters. -/
def isCommentChar (c : Char) : Bool :=
  c == '\t' || (0x20 ≤ c.toNat && c.toNat ≤ 0x7E) || 0x80 ≤ c.toNat

/-- What follows a comment, if there is one. -/
def skipComment : List Char → List Char
  | '#' :: cs => cs.dropWhile isCommentChar
  | cs => cs

/-- What follows the end of a line, after blanks and a comment. -/
def afterLine? (cs : List Char) : Option (List Char) :=
  match skipComment (skipSpace cs) with
  | [] => some []
  | rest => afterBreak? rest

/-- The characters that stand for themselves in a basic string. -/
def isBasicChar (c : Char) : Bool := isCommentChar c && c != '"' && c != '\\'

/-- The characters of a literal string. -/
def isLiteralChar (c : Char) : Bool := isCommentChar c && c != '\''

/-- The character with the code point that `n` hexadecimal digits give, and what follows. -/
def codePoint? (n : Nat) (cs : List Char) : Option (Char × List Char) :=
  if cs.length < n then none
  else (hexValue? 0 (cs.take n)).bind fun v =>
    if v.isValidChar then some (Char.ofNat v, cs.drop n) else none

/-- The character that stands after a backslash, and what follows. -/
def escape? : List Char → Option (Char × List Char)
  | 'b' :: cs => some (Char.ofNat 8, cs)
  | 't' :: cs => some ('\t', cs)
  | 'n' :: cs => some ('\n', cs)
  | 'f' :: cs => some (Char.ofNat 12, cs)
  | 'r' :: cs => some ('\r', cs)
  | '"' :: cs => some ('"', cs)
  | '\\' :: cs => some ('\\', cs)
  | 'u' :: cs => codePoint? 4 cs
  | 'U' :: cs => codePoint? 8 cs
  | _ => none

/-- Adds a character to what was read after it. -/
def cons (c : Char) (read : Option (List Char × List Char)) : Option (List Char × List Char) :=
  read.map fun (text, rest) => (c :: text, rest)

/-- The rest of a basic string after its opening quote; `fuel` is at least the number of
characters. -/
def basicBody : Nat → List Char → Option (List Char × List Char)
  | 0, _ => none
  | _ + 1, [] => none
  | _ + 1, '"' :: cs => some ([], cs)
  | fuel + 1, '\\' :: cs => (escape? cs).bind fun (c, rest) => cons c (basicBody fuel rest)
  | fuel + 1, c :: cs => if isBasicChar c then cons c (basicBody fuel cs) else none

/-- What follows blanks and line breaks. -/
def skipBlankLines : List Char → List Char
  | '\r' :: '\n' :: cs => skipBlankLines cs
  | c :: cs => if isSpace c || c == '\n' then skipBlankLines cs else c :: cs
  | [] => []

/-- The end of a multi-line string after its first three quotes: up to two more belong to it. -/
def closing (quote : Char) (cs : List Char) : List Char × List Char :=
  let more := (cs.takeWhile (· == quote)).take 2
  (more, cs.drop more.length)

/-- The rest of a multi-line basic string. A backslash at the end of a line joins it to the next
text. -/
def multiBasicBody : Nat → List Char → Option (List Char × List Char)
  | 0, _ => none
  | _ + 1, [] => none
  | _ + 1, '"' :: '"' :: '"' :: cs => some (closing '"' cs)
  | fuel + 1, '\\' :: cs =>
    match afterBreak? (skipSpace cs) with
    | some rest => multiBasicBody fuel (skipBlankLines rest)
    | none => (escape? cs).bind fun (c, rest) => cons c (multiBasicBody fuel rest)
  | fuel + 1, '\r' :: '\n' :: cs => cons '\n' (multiBasicBody fuel cs)
  | fuel + 1, c :: cs =>
    if isBasicChar c || c == '"' || c == '\n' then cons c (multiBasicBody fuel cs) else none

/-- The rest of a literal string. -/
def literalBody : List Char → Option (List Char × List Char)
  | [] => none
  | '\'' :: cs => some ([], cs)
  | c :: cs => if isLiteralChar c then cons c (literalBody cs) else none

/-- The rest of a multi-line literal string. -/
def multiLiteralBody : List Char → Option (List Char × List Char)
  | [] => none
  | '\'' :: '\'' :: '\'' :: cs => some (closing '\'' cs)
  | '\r' :: '\n' :: cs => cons '\n' (multiLiteralBody cs)
  | c :: cs =>
    if isLiteralChar c || c == '\'' || c == '\n' then cons c (multiLiteralBody cs) else none

/-- A text without the line break at its start. -/
def dropFirstBreak (cs : List Char) : List Char := (afterBreak? cs).getD cs

/-- Reads a string on one line. -/
def lineString? : List Char → Option (List Char × List Char)
  | '"' :: cs => basicBody (cs.length + 1) cs
  | '\'' :: cs => literalBody cs
  | _ => none

/-- Reads a string of any sort. A line break directly after three quotes is left out. -/
def string? : List Char → Option (List Char × List Char)
  | '"' :: '"' :: '"' :: cs =>
    let cs := dropFirstBreak cs
    multiBasicBody (cs.length + 1) cs
  | '\'' :: '\'' :: '\'' :: cs => multiLiteralBody (dropFirstBreak cs)
  | cs => lineString? cs

/-- Digits, single underscores between them left out. -/
def moreDigits (isDigit : Char → Bool) : List Char → Option (List Char × List Char)
  | '_' :: c :: cs => if isDigit c then cons c (moreDigits isDigit cs) else none
  | c :: cs =>
    if isDigit c then cons c (moreDigits isDigit cs)
    else if c = '_' then none
    else some ([], c :: cs)
  | [] => some ([], [])

/-- One digit or more. -/
def digits (isDigit : Char → Bool) : List Char → Option (List Char × List Char)
  | c :: cs => if isDigit c then cons c (moreDigits isDigit cs) else none
  | [] => none

/-- Whether a text starts with a minus, and what follows a sign. -/
def sign : List Char → Bool × List Char
  | '-' :: cs => (true, cs)
  | '+' :: cs => (false, cs)
  | cs => (false, cs)

/-- The digits of a decimal number without a sign. Only a zero alone starts with zero. -/
def decimal : List Char → Option (List Char × List Char)
  | '0' :: cs => some (['0'], cs)
  | cs => digits Char.isDigit cs

/-- The number written by digits in the given base. -/
def valueOf (base : Nat) (ds : List Char) : Nat :=
  ds.foldl (fun n c => base * n + ((hexValue? 0 [c]).getD 0)) 0

/-- The bounds of integers, which have 64 bits with their sign. -/
def inRange (n : Int) : Bool := -9223372036854775808 ≤ n && n < 9223372036854775808

def integerOf (n : Int) (rest : List Char) : Option (Value × List Char) :=
  if inRange n then some (.integer n, rest) else none

def isHexDigit (c : Char) : Bool := (hexValue? 0 [c]).isSome

/-- Reads an integer. -/
def integer? (cs : List Char) : Option (Value × List Char) :=
  match cs with
  | '0' :: 'x' :: cs => (digits isHexDigit cs).bind fun (ds, rest) => integerOf (valueOf 16 ds) rest
  | '0' :: 'o' :: cs =>
    (digits (fun c => '0' ≤ c && c ≤ '7') cs).bind fun (ds, rest) => integerOf (valueOf 8 ds) rest
  | '0' :: 'b' :: cs =>
    (digits (fun c => c == '0' || c == '1') cs).bind fun (ds, rest) =>
      integerOf (valueOf 2 ds) rest
  | cs =>
    let (negative, cs) := sign cs
    (decimal cs).bind fun (ds, rest) =>
      let n : Int := valueOf 10 ds
      integerOf (if negative then -n else n) rest

/-- Whether a positive decimal fraction is too large for a finite double: it is rounded up from
half a unit beyond the largest one. -/
def overflows (mantissa : Nat) (exponent : Int) : Bool :=
  let magnitude := (Nat.toDigits 10 mantissa).length + exponent
  if mantissa = 0 || magnitude ≤ 308 then false
  else if 311 ≤ magnitude then true
  else
    let limit := Nat.pow 2 1024 - Nat.pow 2 970
    match exponent with
    | .ofNat e => limit ≤ mantissa * Nat.pow 10 e
    | .negSucc e => limit * Nat.pow 10 (e + 1) ≤ mantissa

/-- The fraction of a float. -/
def fraction : List Char → Option (List Char × List Char)
  | '.' :: cs => digits Char.isDigit cs
  | _ => none

/-- The exponent of a float. -/
def exponent (cs : List Char) : Option (Int × List Char) :=
  match cs with
  | [] => none
  | e :: cs =>
    if e = 'e' ∨ e = 'E' then
      let (negative, cs) := sign cs
      (digits Char.isDigit cs).map fun (ds, rest) =>
        let n : Int := valueOf 10 ds
        (if negative then -n else n, rest)
    else none

/-- Reads a float, or one of the names of infinity and of no number. -/
def float? (cs : List Char) : Option (Value × List Char) :=
  let (negative, unsigned) := sign cs
  match unsigned with
  | 'i' :: 'n' :: 'f' :: rest => some (.float, rest)
  | 'n' :: 'a' :: 'n' :: rest => some (.float, rest)
  | _ =>
    (decimal unsigned).bind fun (whole, afterWhole) =>
      let (part, afterPart) := (fraction afterWhole).getD ([], afterWhole)
      let (power, rest) := (exponent afterPart).getD (0, afterPart)
      if rest.length = afterWhole.length then none
      else if !negative && overflows (valueOf 10 (whole ++ part)) (power - part.length) then none
      else some (.float, rest)

/-- A number of exactly `n` digits between two bounds. -/
def fixed? (n lo hi : Nat) (cs : List Char) : Option (Nat × List Char) :=
  let ds := cs.take n
  if ds.length = n && ds.all Char.isDigit && lo ≤ valueOf 10 ds && valueOf 10 ds ≤ hi then
    some (valueOf 10 ds, cs.drop n)
  else none

/-- What follows a given character. -/
def after? (c : Char) : List Char → Option (List Char)
  | d :: cs => if d = c then some cs else none
  | [] => none

def isLeapYear (year : Nat) : Bool := year % 4 == 0 && (year % 100 != 0 || year % 400 == 0)

def daysOf (year month : Nat) : Nat :=
  if month = 2 then (if isLeapYear year then 29 else 28)
  else if month = 4 ∨ month = 6 ∨ month = 9 ∨ month = 11 then 30
  else 31

/-- What follows a day of the calendar. -/
def afterDay? (cs : List Char) : Option (List Char) := do
  let (year, cs) ← fixed? 4 0 9999 cs
  let cs ← after? '-' cs
  let (month, cs) ← fixed? 2 1 12 cs
  let cs ← after? '-' cs
  let (_, cs) ← fixed? 2 1 (daysOf year month) cs
  pure cs

/-- What follows a time of day. -/
def afterTime? (cs : List Char) : Option (List Char) := do
  let (_, cs) ← fixed? 2 0 23 cs
  let cs ← after? ':' cs
  let (_, cs) ← fixed? 2 0 59 cs
  let cs ← after? ':' cs
  let (_, cs) ← fixed? 2 0 60 cs
  match cs with
  | '.' :: d :: rest => pure (if d.isDigit then rest.dropWhile Char.isDigit else cs)
  | _ => pure cs

/-- What follows the offset of a time zone. -/
def afterOffset? (cs : List Char) : Option (List Char) := do
  match cs with
  | [] => none
  | c :: rest =>
    if c = 'Z' ∨ c = 'z' then pure rest
    else if c = '+' ∨ c = '-' then
      let (_, rest) ← fixed? 2 0 23 rest
      let rest ← after? ':' rest
      let (_, rest) ← fixed? 2 0 59 rest
      pure rest
    else none

/-- Reads a day, a time of day, or a day with a time. -/
def date? (cs : List Char) : Option (Value × List Char) :=
  match afterDay? cs with
  | some rest =>
    match rest with
    | c :: time =>
      if c = 'T' ∨ c = 't' ∨ c = ' ' then
        match afterTime? time with
        | some afterTime => some (.date, (afterOffset? afterTime).getD afterTime)
        | none => some (.date, rest)
      else some (.date, rest)
    | [] => some (.date, rest)
  | none => (afterTime? cs).map fun rest => (.date, rest)

/-- Reads a value that holds no others. -/
def scalar? (cs : List Char) : Option (Value × List Char) :=
  match cs with
  | 't' :: 'r' :: 'u' :: 'e' :: rest => some (.boolean true, rest)
  | 'f' :: 'a' :: 'l' :: 's' :: 'e' :: rest => some (.boolean false, rest)
  | c :: _ =>
    if c = '"' ∨ c = '\'' then
      (string? cs).map fun (text, rest) => (.string (String.ofList text), rest)
    else (date? cs).or ((float? cs).or (integer? cs))
  | [] => none

end SpecLens.Toml
