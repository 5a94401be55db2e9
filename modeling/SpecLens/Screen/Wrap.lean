import SpecLens.Screen.Cell
import SpecLens.Text.Split

/-!
# Word wrap

Breaks a row into lines at blanks, without trimming them. A word that is longer than a line is
broken where the line ends.
-/

namespace SpecLens.Screen

/-- The lines that are finished, last first, and what is read of the next one: text that stays on
it, then blanks, then a word that may still move to the next line. -/
structure Wrapping where
  finished : List Row
  line : Row
  space : Row
  word : Row
  /-- The last cell was no blank. -/
  inWord : Bool

/-- Blanks at which a line may break. -/
def isBreak (c : Char) : Bool := c == '\u200b' || (Text.isBlank c && c != '\u00a0')

namespace Wrapping

def empty : Wrapping := ⟨[], [], [], [], false⟩

/-- Moves the word that is complete, or fills an empty line, to the line. -/
def settle (width : Nat) (blank : Bool) (w : Wrapping) : Wrapping :=
  if (w.inWord && blank) || (w.line.isEmpty && width < w.word.length + w.space.length + 1) then
    { w with line := w.line ++ w.space ++ w.word, space := [], word := [] }
  else w

/-- Takes in one more cell. -/
def step (width : Nat) (w : Wrapping) (c : Cell) : Wrapping :=
  let blank := isBreak c.char
  let w := w.settle width blank
  let push (w : Wrapping) : Wrapping :=
    if blank then { w with space := w.space ++ [c], inWord := false }
    else { w with word := w.word ++ [c], inWord := true }
  if width ≤ w.line.length || width ≤ w.line.length + w.space.length + w.word.length then
    let space := w.space.drop (width - w.line.length)
    let w := { w with finished := w.line :: w.finished, line := [], space }
    if blank && space.isEmpty then w else push w
  else push w

/-- The lines when all cells are read. -/
def lines (w : Wrapping) : List Row :=
  let finished :=
    if w.line.isEmpty && w.word.isEmpty && !w.space.isEmpty then [] :: w.finished else w.finished
  let line := w.line ++ w.space ++ w.word
  let finished := if line.isEmpty then finished else line :: finished
  if finished.isEmpty then [[]] else finished.reverse

end Wrapping

/-- A row broken into lines of the given width. -/
def wrap (width : Nat) (row : Row) : List Row :=
  (row.foldl (Wrapping.step width) .empty).lines

end SpecLens.Screen
