import SpecLens.Text.Position

/-!
# Configuration of version control

A setting is a line with a name, an equals sign and a single word, which may stand in quotes. Lines
of any other form are passed over, and so are the sections that they stand in.
-/

namespace SpecLens.GitConfig

open Text

/-- Blanks between the parts of a line; line breaks are among them. -/
def isBlank (b : UInt8) : Bool := b == 32 || (9 ≤ b && b ≤ 13)

def quote : UInt8 := 34

def equals : UInt8 := 61

/-- The small letter of a capital one. -/
def toLower (b : UInt8) : UInt8 := if 65 ≤ b && b ≤ 90 then b + 32 else b

/-- Whether nothing but blanks precedes the end of a line. -/
def endsLine (bs : List UInt8) : Bool :=
  (bs.takeWhile isBlank).contains lineBreak || (bs.dropWhile isBlank).isEmpty

/-- What follows the byte `b` behind blanks, if that is what a text goes on with. -/
def dropByte? (b : UInt8) (bs : List UInt8) : Option (List UInt8) :=
  match bs.dropWhile isBlank with
  | c :: rest => if c == b then some rest else none
  | [] => none

/-- Whether nothing but blanks and at most one quote precede the end of a line. -/
def endsValue (bs : List UInt8) : Bool :=
  endsLine bs || (dropByte? quote bs).any endsLine

/-- The shortest word that a text starts with and that a value can end with. -/
def word? : List UInt8 → Option (List UInt8)
  | [] => none
  | b :: bs =>
    if isBlank b then none
    else if endsValue bs then some [b]
    else (word? bs).map (b :: ·)

/-- The value behind an equals sign. A quote that no other word follows is a word itself. -/
def valueAfter? (bs : List UInt8) : Option (List UInt8) :=
  ((dropByte? quote bs).bind fun rest => word? (rest.dropWhile isBlank)).or
    (word? (bs.dropWhile isBlank))

/-- The value of the setting that a text starts with, if it is the one with the given name. -/
def valueAt? (name bs : List UInt8) : Option (List UInt8) :=
  let bs := bs.dropWhile isBlank
  if (bs.take name.length).map toLower = name then
    (dropByte? equals (bs.drop name.length)).bind valueAfter?
  else none

/-- The first value of a setting in lines. -/
def valueIn? (name : List UInt8) : List (List UInt8) → Option (List UInt8)
  | [] => none
  | line :: rest => (valueAt? name (line :: rest).flatten).or (valueIn? name rest)

/-- The first value of the setting with the given name, which is in small letters. -/
def value? (name : String) (contents : List UInt8) : Option (List UInt8) :=
  valueIn? name.toUTF8.toList (lines contents)

end SpecLens.GitConfig
