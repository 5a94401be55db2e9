import SpecLens.App.Basic
import SpecLens.Screen.Wrap

/-!
# What the application paints

The toolbar stands at the top, the status at the bottom and the last request above it. Between
them are the open files and the outline of the selected one.
-/

namespace SpecLens.App

open Screen

/-- The border of a pane shows whether it receives the keys. -/
def borderLook (focused : Bool) : Look := .colored (if focused then .yellow else .darkGray)

def toolbar (a : App) (width : Nat) : List Row :=
  let look := Look.colored (if (a.explorer.runSelected .run).isSome then .white else .darkGray)
  let title := if a.explorer.gate.indexing then " ktspec (indexing) " else " ktspec "
  let row := span look title
  [row.take width ++ List.replicate (width - row.length) ⟨' ', look⟩,
    List.replicate width ⟨'─', .colored .darkGray⟩]

/-- The row of an open file. -/
def fileRow (a : App) (index : Nat) (file : Path) : Row :=
  let active := (a.explorer.selectedFile.map (·.same file)).getD false
  let label :=
    if index = a.fileCursor ∧ a.focus = .files then Look.emphasized .yellow else .colored .white
  (if active then span (.colored .green) " ● " else span (.colored .darkGray) " ○ ") ++
    span label (a.fileLabel index)

def filesPane (a : App) (width height : Nat) : List Row :=
  pane (borderLook (a.focus == .files)) " Files " width height <|
    if a.openFiles.isEmpty then
      [span (.colored .darkGray)
        (if a.explorer.gate.indexing then " Scanning..." else " No spec files")]
    else a.openFiles.mapIdx a.fileRow

/-- The look of a row's label. -/
def labelLook : RowItem → Look
  | .file _ => .colored .cyan
  | .module _ => .colored .blue
  | .spec .. => .emphasized .green
  | .test _ t => if t.disabled then { Look.colored .darkGray with crossedOut := true }
      else .colored .white

/-- The mark of a row that can be expanded or collapsed. -/
def rowMark (b : Branch) : String :=
  if !b.hasChildren then "  " else if b.expanded then "▾ " else "▸ "

def outlineRow (depth : Nat) (b : Branch) : Row :=
  List.replicate (2 * depth) .blank ++ span (.colored .darkGray) (rowMark b) ++
    span (labelLook b.item) b.item.label

/-- A row over its full width as the selected one. -/
def highlight (width : Nat) (row : Row) : Row :=
  (fit width row).map fun c =>
    { c with look := { c.look with background := .darkGray, bold := true } }

def outlinePane (a : App) (width height : Nat) : List Row :=
  let outline := a.explorer.outline
  pane (borderLook (a.focus == .outline)) " Kotest " width height <|
    if outline.isEmpty then
      [span (.colored .darkGray)
        (if a.explorer.gate.indexing then " Waiting for indexing to finish..."
          else " No specs in this file")]
    else
      let rows := outline.rows.mapIdx fun i (depth, b) =>
        let row := outlineRow depth b
        if i = outline.selected then highlight (width - 2) row else row
      rows.drop (outline.selected - (height - 2 - 1))

def requestPane (a : App) (width height : Nat) : List Row :=
  let lines := match a.lastRequest with
    | some (r, i) =>
      [span (.emphasized .yellow) (r.mode.name ++ " ") ++ span (.colored .white) r.name,
        span (.colored .cyan) i.shellLine]
    | none => [span (.colored .darkGray) "Select a spec or test and press r, d or c"]
  pane (.colored .darkGray) " Run " width height (lines.flatMap (wrap (width - 2)))

def statusBar (a : App) (width : Nat) : Row :=
  let keys := match a.focus with
    | .files => "[Enter] Open  [Tab] Tree  [j/k] Move  [q] Quit"
    | .outline => "[Enter] Toggle  [r/d/c] Run  [e/x] Expand  [Tab] Files  [q] Quit"
  let text := match a.status with
    | some message => keys ++ "  |  " ++ message
    | none => keys
  let row := span (.colored .darkGray) text
  row.take width ++ List.replicate (width - row.length) ⟨' ', .colored .darkGray⟩

/-- The width of the files pane: three tenths of the screen, rounded. -/
def filesWidth (width : Nat) : Nat := (3 * width + 5) / 10

/-- The whole screen. -/
def paint (a : App) (width height : Nat) : List Row :=
  let middle := height - 7
  let left := filesWidth width
  a.toolbar width ++
    List.zipWith (· ++ ·) (a.filesPane left middle) (a.outlinePane (width - left) middle) ++
    a.requestPane width 4 ++ [a.statusBar width]

end SpecLens.App
