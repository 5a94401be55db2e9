import SpecLens.App.Painting
import SpecLens.Proofs.App.OpenFiles

/-!
# The pane of open files

The pane shows the open files from the first one on, as many as it has lines, wherever the cursor
is. So the row of the file under the cursor is on the screen as long as the cursor is on one of the
first files, and no longer.
-/

namespace SpecLens

namespace Screen

variable {border : Look} {title : String} {width height : Nat} {rows : List Row} {row : Row}

/-- The lines inside the border of a pane. -/
def inside (pane : List Row) : List Row :=
  pane.tail.dropLast.map fun line => line.tail.dropLast

lemma inside_pane : inside (pane border title width height rows) =
    fitRows (width - 2) (height - 2) rows := by
  simp [inside, pane, Function.comp_def]

lemma mem_fitRows : row ∈ fitRows width height rows ↔
    (∃ i < height, (rows[i]?).map (fit width) = some row) ∨
      rows.length < height ∧ row = List.replicate width .blank := by
  rw [fitRows, List.mem_append, List.mem_replicate, Nat.sub_ne_zero_iff_lt, List.mem_iff_getElem?]
  refine or_congr_left (exists_congr fun i => ?_)
  rw [List.getElem?_map, List.getElem?_take]
  by_cases h : i < height <;> simp [h]

lemma getElem?_fit {i : Nat} (h : i < width) :
    (fit width row)[i]? = some (row[i]?.getD .blank) := by
  rw [fit]
  by_cases hrow : i < row.length
  · rw [List.getElem?_append_left (by simp; omega), List.getElem?_take_of_lt h]
    simp [hrow]
  · rw [List.getElem?_append_right (by simp; omega), List.getElem?_replicate]
    simp [List.getElem?_eq_none (Nat.le_of_not_lt hrow)]
    omega

end Screen

namespace App

open Screen

variable {a : App} {width height index : Nat} {row : Row} {file : Path}

/-- The row of an open file, cut or filled up to the width inside the pane. -/
def paintedRow (a : App) (width index : Nat) (file : Path) : Row :=
  fit (width - 2) (a.fileRow index file)

/-- The open files that are painted are those whose index is below the number of lines. -/
lemma mem_filesPane (hopen : a.openFiles ≠ []) : row ∈ inside (a.filesPane width height) ↔
    (∃ i < height - 2, ∃ f, a.openFiles[i]? = some f ∧ a.paintedRow width i f = row) ∨
      a.openFiles.length < height - 2 ∧ row = List.replicate (width - 2) .blank := by
  rw [filesPane, inside_pane, mem_fitRows, if_neg (by simpa using hopen), List.length_mapIdx]
  refine or_congr_left (exists_congr fun i => and_congr_right fun _ => ?_)
  simp [paintedRow, List.getElem?_mapIdx]

/-- The color of the first letter of the name in a row. -/
def nameColor (row : Row) : Option Color := row[3]?.map (·.look.foreground)

lemma nameColor_paintedRow (hwidth : 6 ≤ width) (a : App) (index : Nat) (file : Path) :
    nameColor (a.paintedRow width index file) =
      if a.fileLabel index = "" then some .reset
      else if index = a.fileCursor ∧ a.focus = .files then some .yellow else some .white := by
  have hicon (active : Bool) : (if active then span (.colored .green) " ● "
      else span (.colored .darkGray) " ○ ").length = 3 := by
    cases active <;> rfl
  rw [nameColor, paintedRow, getElem?_fit (by omega), fileRow, List.getElem?_append_right
    (Nat.le_of_eq (hicon _)), hicon, span]
  cases hlabel : (a.fileLabel index).toList with
  | nil =>
    rw [if_pos (String.toList_eq_nil_iff.mp hlabel)]
    rfl
  | cons c rest =>
    have hne : a.fileLabel index ≠ "" := by
      rw [ne_eq, ← String.toList_eq_nil_iff, hlabel]
      exact List.cons_ne_nil c rest
    rw [if_neg hne, List.map_cons, Nat.sub_self]
    split <;> rfl

/-- While the pane has the focus, only the file under the cursor is highlighted. -/
lemma eq_fileCursor_of_paintedRow_eq (hfocus : a.focus = .files) (hwidth : 6 ≤ width)
    (hlabel : a.fileLabel a.fileCursor ≠ "") {f : Path}
    (h : a.paintedRow width index f = a.paintedRow width a.fileCursor file) :
    index = a.fileCursor := by
  have hyellow : nameColor (a.paintedRow width a.fileCursor file) = some .yellow := by
    rw [nameColor_paintedRow hwidth, if_neg hlabel, if_pos ⟨rfl, hfocus⟩]
  by_contra hne
  rw [← h, nameColor_paintedRow hwidth, if_neg (c := index = a.fileCursor ∧ _) (hne ·.1)] at hyellow
  split at hyellow <;> cases hyellow

/-- In every run, the row of the file under the cursor is painted just in case the pane has a line
with the number of the cursor, or a file above looks the same in the pane. While the pane has the
focus no other file looks the same, so that it is the number of lines alone that decides. -/
theorem cursor_row_painted_iff (w : World) (config : Config) (project : Project)
    (openFiles : List Path) (events : List (World × Event)) (width height : Nat)
    (hopen : ((init w config project openFiles).run events).openFiles ≠ []) :
    let a := (init w config project openFiles).run events
    ∃ file, a.openFiles[a.fileCursor]? = some file ∧
      let row := a.paintedRow width a.fileCursor file
      let lines := inside (a.filesPane width height)
      (row ∈ lines ↔ a.fileCursor < height - 2 ∨
        ∃ i < height - 2, ∃ f, a.openFiles[i]? = some f ∧ a.paintedRow width i f = row) ∧
      (a.focus = .files → 6 ≤ width → a.fileLabel a.fileCursor ≠ "" →
        (row ∈ lines ↔ a.fileCursor < height - 2)) := by
  intro a
  have hcursor : a.fileCursor < a.openFiles.length := by
    have htidy : a.Tidy := (tidy_init w config project openFiles).run events
    have hpos : 0 < a.openFiles.length := List.length_pos_iff.mpr hopen
    exact Nat.lt_of_le_pred hpos htidy.cursor
  have hfile : a.openFiles[a.fileCursor]? = some a.openFiles[a.fileCursor] :=
    List.getElem?_eq_getElem hcursor
  refine ⟨_, hfile, ?_⟩
  intro row lines
  have hpainted : row ∈ lines ↔ a.fileCursor < height - 2 ∨
      ∃ i < height - 2, ∃ f, a.openFiles[i]? = some f ∧ a.paintedRow width i f = row := by
    rw [mem_filesPane hopen]
    constructor
    · rintro (hpainted | ⟨hblank, -⟩)
      · exact .inr hpainted
      -- A pane with blank lines has lines for all files.
      · exact .inl (hcursor.trans hblank)
    · rintro (hlt | hpainted)
      · exact .inl ⟨_, hlt, _, hfile, rfl⟩
      · exact .inl hpainted
  refine ⟨hpainted, fun hfocus hwidth hlabel => hpainted.trans (or_iff_left_of_imp ?_)⟩
  rintro ⟨i, hi, f, -, hsame⟩
  rwa [← eq_fileCursor_of_paintedRow_eq hfocus hwidth hlabel hsame]

/-- Nine empty source files. -/
def nineNames : List String :=
  ["A.kt", "B.kt", "C.kt", "D.kt", "E.kt", "F.kt", "G.kt", "H.kt", "I.kt"]

def ninePaths : List Path := nineNames.map fun name => ⟨"/p/" ++ name⟩

def nineFiles : Files :=
  (["p"], .directory) :: nineNames.map fun name => (["p", name], .file [])

/-- The keys that move the cursor down from the first of these files. -/
def stepsDown (count : Nat) : List (World × Event) :=
  let w := Explorer.oneFileWorld.withFiles nineFiles
  (w, .press .tab false) :: List.replicate count (w, .press .down false)

/-- On a screen of 40 columns and 17 rows, the row of the eighth file is painted. -/
theorem eighth_file_painted :
    let w := Explorer.oneFileWorld.withFiles nineFiles
    let a := (init w .standard Explorer.oneFileProject ninePaths).run (stepsDown 7)
    a.openFiles ≠ [] ∧ a.openFiles[a.fileCursor]? = some ⟨"/p/H.kt"⟩ ∧
      a.paintedRow (filesWidth 40) a.fileCursor ⟨"/p/H.kt"⟩ ∈
        inside (a.filesPane (filesWidth 40) (17 - 7)) := by
  intro w a
  have hopen : a.openFiles ≠ [] := by decide +kernel
  have hcursor : a.openFiles[a.fileCursor]? = some ⟨"/p/H.kt"⟩ := by decide +kernel
  have hfocus : a.focus = .files := by decide +kernel
  have hlabel : a.fileLabel a.fileCursor ≠ "" := by decide +kernel
  have hlt : a.fileCursor < 17 - 7 - 2 := by decide +kernel
  obtain ⟨file, hfile, -, hsight⟩ := cursor_row_painted_iff w .standard Explorer.oneFileProject
    ninePaths (stepsDown 7) (filesWidth 40) (17 - 7) hopen
  cases hcursor.symm.trans hfile
  exact ⟨hopen, hcursor, (hsight hfocus (by decide) hlabel).mpr hlt⟩

/-- The row of the ninth file is not, and its name stands nowhere on the screen. -/
theorem ninth_file_out_of_sight :
    let w := Explorer.oneFileWorld.withFiles nineFiles
    let a := (init w .standard Explorer.oneFileProject ninePaths).run (stepsDown 8)
    a.openFiles ≠ [] ∧ a.openFiles[a.fileCursor]? = some ⟨"/p/I.kt"⟩ ∧
      a.paintedRow (filesWidth 40) a.fileCursor ⟨"/p/I.kt"⟩ ∉
        inside (a.filesPane (filesWidth 40) (17 - 7)) ∧
      ∀ row ∈ a.paint 40 17, Text.containsText "I.kt".toList (row.map (·.char)) = false := by
  decide +kernel

end App

end SpecLens
