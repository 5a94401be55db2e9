/-!
# Cells and rows of the screen

A painting is a list of rows of cells. Rows are put together from spans of text.
-/

namespace SpecLens.Screen

inductive Color where
  | reset
  | yellow
  | darkGray
  | white
  | green
  | cyan
  | blue
deriving DecidableEq, Repr, Inhabited

/-- How a cell looks. -/
structure Look where
  foreground : Color
  background : Color
  bold : Bool
  crossedOut : Bool
deriving DecidableEq, Repr, Inhabited

namespace Look

/-- The look of cells that nothing was painted on. -/
def plain : Look := ⟨.reset, .reset, false, false⟩

def colored (c : Color) : Look := { plain with foreground := c }

def emphasized (c : Color) : Look := { colored c with bold := true }

end Look

structure Cell where
  char : Char
  look : Look
deriving DecidableEq, Repr, Inhabited

def Cell.blank : Cell := ⟨' ', .plain⟩

abbrev Row := List Cell

/-- The cells of a text. -/
def span (look : Look) (text : String) : Row := text.toList.map (⟨·, look⟩)

/-- A row cut or filled up with blanks to the given width. -/
def fit (width : Nat) (row : Row) : Row :=
  row.take width ++ List.replicate (width - row.length) .blank

/-- The first rows of a list, filled up with blank ones to the given height. -/
def fitRows (width height : Nat) (rows : List Row) : List Row :=
  (rows.take height).map (fit width) ++
    List.replicate (height - rows.length) (List.replicate width .blank)

/-- The neighbouring cells of equal look put together. -/
def runs : Row → List (List Char × Look)
  | [] => []
  | cell :: rest =>
    match runs rest with
    | (text, look) :: more =>
      if look = cell.look then (cell.char :: text, look) :: more
      else ([cell.char], cell.look) :: (text, look) :: more
    | [] => [([cell.char], cell.look)]

/-- A pane with a rounded border and a title, around rows that are cut to fit. -/
def pane (border : Look) (title : String) (width height : Nat) (rows : List Row) : List Row :=
  let inner := width - 2
  let line (left right : Char) (title : Row) : Row :=
    ⟨left, border⟩ :: (title.take inner ++
      List.replicate (inner - title.length) ⟨'─', border⟩) ++ [⟨right, border⟩]
  line '╭' '╮' (span border title) ::
    ((fitRows inner (height - 2) rows).map fun row =>
      ⟨'│', border⟩ :: row ++ [⟨'│', border⟩]) ++
    [line '╰' '╯' []]

end SpecLens.Screen
