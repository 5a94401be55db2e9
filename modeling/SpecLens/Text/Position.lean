/-!
# Offsets, lines and columns

Offsets count the bytes of a text in UTF-8. A slice exists only where both its ends fall between
two characters. A position counts lines from 1 and, within a line, bytes from 1.
`Position.ofOffset` reads it off an offset, `offsetOf?` leads back.
-/

namespace SpecLens.Text

/-- The characters after the first `n` bytes, if `n` falls between two characters. -/
def dropBytes : Nat → List Char → Option (List Char)
  | 0, cs => some cs
  | _ + 1, [] => none
  | n + 1, c :: cs => if c.utf8Size ≤ n + 1 then dropBytes (n + 1 - c.utf8Size) cs else none

/-- The characters that make up the first `n` bytes, if `n` falls between two characters. -/
def takeBytes : Nat → List Char → Option (List Char)
  | 0, _ => some []
  | _ + 1, [] => none
  | n + 1, c :: cs =>
    if c.utf8Size ≤ n + 1 then (takeBytes (n + 1 - c.utf8Size) cs).map (c :: ·) else none

/-- The characters from byte `start` up to byte `stop`, if both fall between two characters. -/
def slice? (cs : List Char) (start stop : Nat) : Option (List Char) :=
  if start ≤ stop then (dropBytes start cs).bind (takeBytes (stop - start)) else none

/-- The number of bytes of a text. -/
def byteLength : List Char → Nat
  | [] => 0
  | c :: cs => c.utf8Size + byteLength cs

theorem byteLength_append (as bs : List Char) :
    byteLength (as ++ bs) = byteLength as + byteLength bs := by
  induction as with
  | nil => simp [byteLength]
  | cons a as ih => simp only [List.cons_append, byteLength, ih]; omega

/-- The text that bytes in UTF-8 stand for. -/
def ofBytes? (bytes : List UInt8) : Option String :=
  String.fromUTF8? ⟨bytes.toArray⟩

/-- The bytes of a text in UTF-8. -/
def toBytes (cs : List Char) : List UInt8 :=
  cs.flatMap String.utf8EncodeChar

/-- A line and a byte column, both counted from 1. -/
structure Position where
  line : Nat
  column : Nat
deriving DecidableEq, Repr, Inhabited

/-- The byte that ends a line. -/
def lineBreak : UInt8 := 10

/-- The position of the byte at `offset`. -/
def Position.ofOffset (bytes : List UInt8) (offset : Nat) : Position :=
  let before := bytes.take offset
  ⟨1 + before.count lineBreak, 1 + (before.reverse.takeWhile (· ≠ lineBreak)).length⟩

/-- The lines of a text, each with its line break. No line follows the last break. -/
def lines : List UInt8 → List (List UInt8)
  | [] => []
  | b :: bytes =>
    if b = lineBreak then [b] :: lines bytes
    else match lines bytes with
      | [] => [[b]]
      | line :: rest => (b :: line) :: rest

/-- Nothing is lost when bytes are cut into lines. -/
theorem flatten_lines (bytes : List UInt8) : (lines bytes).flatten = bytes := by
  induction bytes with
  | nil => rfl
  | cons b bytes ih =>
    rw [lines]
    split
    · simp [ih]
    · split
      case h_1 h => rw [h] at ih; simp at ih; simp [← ih]
      case h_2 h => rw [h] at ih; simpa using ih

/-- The number of bytes of a line before its line break. -/
def lineWidth (line : List UInt8) : Nat :=
  (line.takeWhile (· ≠ lineBreak)).length

/-- The offset of a position. A column past the end of its line means the end of that line; there
is none for line 0, column 0 or a line that does not exist. -/
def offsetOf? (bytes : List UInt8) (line column : Nat) : Option Nat :=
  if line = 0 || column = 0 then none
  else
    let rows := lines bytes
    rows[line - 1]?.map fun row =>
      (rows.take (line - 1)).flatten.length + min (column - 1) (lineWidth row)

end SpecLens.Text
