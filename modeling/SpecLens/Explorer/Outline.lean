import SpecLens.Disk.Path
import SpecLens.Spec.Test

/-!
# Outlines of a file

The file, its module, its specs and their tests as a tree of rows that can be expanded and
collapsed, with a cursor over the visible rows.
-/

namespace SpecLens

/-- What a row of the explorer stands for. -/
inductive RowItem where
  | file (path : Path)
  | module (name : String)
  | spec (name fqn style : String) (anchor : Anchor)
  | test (specFqn : String) (test : Test)
deriving DecidableEq, Repr, Inhabited

def RowItem.label : RowItem → String
  | file path => path.fileName?.getD path.text
  | module name => name
  | spec name _ style _ => name ++ " [" ++ style ++ "]"
  | test _ t => t.name.display

/-- A row with the rows below it. -/
inductive Branch where
  | node (item : RowItem) (expanded : Bool) (children : List Branch)
deriving Inhabited

namespace Branch

def item : Branch → RowItem
  | node item _ _ => item

def expanded : Branch → Bool
  | node _ expanded _ => expanded

def children : Branch → List Branch
  | node _ _ children => children

def hasChildren (b : Branch) : Bool := !b.children.isEmpty

mutual

def setExpanded (expanded : Bool) : Branch → Branch
  | node item _ children => node item expanded (setExpandedAll expanded children)

def setExpandedAll (expanded : Bool) : List Branch → List Branch
  | [] => []
  | b :: rest => setExpanded expanded b :: setExpandedAll expanded rest

end

mutual

/-- The number of rows at and below a row, visible or not. -/
def size : Branch → Nat
  | node _ _ children => 1 + sizeAll children

def sizeAll : List Branch → Nat
  | [] => 0
  | b :: rest => size b + sizeAll rest

end

mutual

/-- The visible rows at and below a row, each with its depth. -/
def rows (depth : Nat) : Branch → List (Nat × Branch)
  | node item expanded children =>
    (depth, node item expanded children) :: if expanded then rowsAll (depth + 1) children else []

def rowsAll (depth : Nat) : List Branch → List (Nat × Branch)
  | [] => []
  | b :: rest => rows depth b ++ rowsAll depth rest

end

mutual

/-- The number of visible rows at and below a row. -/
def visible : Branch → Nat
  | node _ expanded children => 1 + if expanded then visibleAll children else 0

def visibleAll : List Branch → Nat
  | [] => 0
  | b :: rest => visible b + visibleAll rest

end

mutual

theorem length_rows (depth : Nat) (b : Branch) : (rows depth b).length = visible b := by
  cases b with
  | node item expanded children =>
    simp only [rows, visible, List.length_cons]
    split
    · rw [length_rowsAll]; omega
    · simp

theorem length_rowsAll (depth : Nat) (bs : List Branch) :
    (rowsAll depth bs).length = visibleAll bs := by
  cases bs with
  | nil => rfl
  | cons b rest => simp [rowsAll, visibleAll, length_rows, length_rowsAll]

end

mutual

/-- Expands or collapses the visible row with the given index, if it has rows below it. -/
def toggleAt (index : Nat) : Branch → Branch
  | node item expanded children =>
    match index with
    | 0 => node item (if children.isEmpty then expanded else !expanded) children
    | i + 1 => node item expanded (if expanded then toggleAmong i children else children)

def toggleAmong (index : Nat) : List Branch → List Branch
  | [] => []
  | b :: rest =>
    if index < visible b then toggleAt index b :: rest
    else b :: toggleAmong (index - visible b) rest

end

mutual

/-- The row of a test, everything expanded. -/
def ofTest (specFqn : String) : TestTree → Branch
  | .node test nested => node (.test specFqn test) true (ofTests specFqn nested)

def ofTests (specFqn : String) : List TestTree → List Branch
  | [] => []
  | tree :: rest => ofTest specFqn tree :: ofTests specFqn rest

end

/-- The row of a spec. -/
def ofSpec (s : Spec) : Branch :=
  node (.spec s.name s.fqn s.style s.anchor) true (ofTests s.fqn s.tests)

end Branch

/-- The rows of a file with the index of the selected one among those that are visible. -/
structure Outline where
  root : Option Branch
  selected : Nat
deriving Inhabited

namespace Outline

def empty : Outline := ⟨none, 0⟩

/-- The outline of a file, everything expanded. -/
def build (file : Path) (module : String) (specs : List Spec) : Outline :=
  ⟨some (.node (.file file) true [.node (.module module) true (specs.map .ofSpec)]), 0⟩

def isEmpty (t : Outline) : Bool := t.root.isNone

/-- The number of rows, visible or not. -/
def size (t : Outline) : Nat := (t.root.map Branch.size).getD 0

/-- The visible rows from top to bottom, each with its depth. -/
def rows (t : Outline) : List (Nat × Branch) := (t.root.map (Branch.rows 0)).getD []

def selectedRow? (t : Outline) : Option Branch := (t.rows[t.selected]?).map (·.2)

/-- Expands every row. The cursor keeps its index. -/
def expandAll (t : Outline) : Outline :=
  { t with root := t.root.map (Branch.setExpanded true) }

/-- Collapses every row. The cursor goes to the top. -/
def collapseAll (t : Outline) : Outline :=
  ⟨t.root.map (Branch.setExpanded false), 0⟩

def selectNext (t : Outline) : Outline :=
  if t.selected + 1 < t.rows.length then { t with selected := t.selected + 1 } else t

def selectPrevious (t : Outline) : Outline :=
  { t with selected := t.selected - 1 }

/-- Moves the cursor to a row, or to the last one. -/
def select (t : Outline) (index : Nat) : Outline :=
  { t with selected := min index (t.rows.length - 1) }

/-- Expands or collapses the selected row. -/
def toggleSelected (t : Outline) : Outline :=
  let toggled := { t with root := t.root.map (Branch.toggleAt t.selected) }
  toggled.select toggled.selected

end Outline

end SpecLens
