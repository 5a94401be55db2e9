import Mathlib.Data.List.Nodup
import SpecLens.Proofs.App.GoneFiles

/-!
# The cursor on the open files

When files leave the list, those below them move up. The cursor keeps its number all the same, as far
as the list reaches, so it comes to be on another file unless none of the files above it left.
-/

namespace SpecLens

/-- What stands above an element that is kept is what is kept of the elements above it. -/
lemma getElem?_filter_iff {α : Type} {kept : α → Bool} {l : List α} {i : Nat} {x : α}
    (hnodup : l.Nodup) (h : l[i]? = some x) (hx : kept x = true) (j : Nat) :
    (l.filter kept)[j]? = some x ↔ j = ((l.take i).filter kept).length := by
  obtain ⟨hlt, rfl⟩ := List.getElem?_eq_some_iff.mp h
  have hsplit : l.filter kept =
      (l.take i).filter kept ++ l[i] :: (l.drop (i + 1)).filter kept := by
    rw [← List.filter_cons_of_pos hx, ← List.filter_append, ← List.drop_eq_getElem_cons hlt,
      List.take_append_drop]
  have hplace : (l.filter kept)[((l.take i).filter kept).length]? = some l[i] := by
    rw [hsplit, List.getElem?_append_right le_rfl, Nat.sub_self]
    rfl
  have hbound := (List.getElem?_eq_some_iff.mp hplace).1
  rw [← hplace, eq_comm, List.getElem?_inj hbound (hnodup.filter kept), eq_comm]

namespace App

variable {a : App} {w : World} {milliseconds : Nat} {file : Path}

lemma fileCursor_foldl_close (files : List Path) (a : App) :
    (files.foldl close a).fileCursor = a.fileCursor := by
  induction files generalizing a with
  | nil => rfl
  | cons file rest ih => exact ih (a.close file)

/-- The cursor keeps its number as far as the list reaches. -/
lemma fileCursor_tick (h : a.fileCursor < a.openFiles.length) :
    (a.tick w milliseconds).fileCursor =
      min a.fileCursor ((a.tick w milliseconds).openFiles.length - 1) := by
  have hstay : a.fileCursor = min a.fileCursor (a.openFiles.length - 1) :=
    (Nat.min_eq_left (Nat.le_sub_one_of_lt h)).symm
  cases hpolls : a.polls milliseconds with
  | false =>
    rw [tick_of_not_polls hpolls]
    exact hstay
  | true =>
    rw [tick_of_polls hpolls]
    split
    · exact hstay
    · show min _ _ = min _ _
      rw [fileCursor_foldl_close]
      rfl

/-- In a list of different files, a file that stays open comes to stand behind those above it that
stay open, while the cursor keeps its number as far as the list reaches. So the cursor is still on
its file just in case all files above it stay open or it is now the last one. -/
theorem cursor_on_same_file_iff (a : App) (w : World) (milliseconds : Nat) (file : Path)
    (hnodup : a.openFiles.Nodup) (hcursor : a.openFiles[a.fileCursor]? = some file)
    (hopen : file ∈ (a.tick w milliseconds).openFiles) :
    let after := a.tick w milliseconds
    let above := a.openFiles.take a.fileCursor
    after.openFiles[(above.filter (· ∈ after.openFiles)).length]? = some file ∧
      after.fileCursor = min a.fileCursor (after.openFiles.length - 1) ∧
      (after.openFiles[after.fileCursor]? = some file ↔
        (∀ f ∈ above, f ∈ after.openFiles) ∨ after.openFiles.getLast? = some file) := by
  intro after above
  have hcursorLt : a.fileCursor < a.openFiles.length := (List.getElem?_eq_some_iff.mp hcursor).1
  have hfiles : after.openFiles = a.openFiles.filter (a.keeps w milliseconds) :=
    openFiles_tick a w milliseconds
  have hmoved : after.fileCursor = min a.fileCursor (after.openFiles.length - 1) :=
    fileCursor_tick hcursorLt
  have hstay : above.filter (a.keeps w milliseconds) = above.filter (· ∈ after.openFiles) := by
    apply List.filter_congr
    intro f hf
    rw [hfiles, Bool.eq_iff_iff, decide_eq_true_iff, List.mem_filter,
      and_iff_right (List.mem_of_mem_take hf)]
  have hplace (i : Nat) : after.openFiles[i]? = some file ↔
      i = (above.filter (· ∈ after.openFiles)).length := by
    rw [← hstay, hfiles]
    exact getElem?_filter_iff hnodup hcursor (List.mem_filter.mp (openFiles_tick a w _ ▸ hopen)).2 i
  have hall : (∀ f ∈ above, f ∈ after.openFiles) ↔
      (above.filter (· ∈ after.openFiles)).length = above.length := by
    simp [List.length_filter_eq_length_iff]
  have hlength : above.length = a.fileCursor := List.length_take_of_le hcursorLt.le
  have hle := List.length_filter_le (· ∈ after.openFiles) above
  have hlt := (List.getElem?_eq_some_iff.mp ((hplace _).mpr rfl)).1
  refine ⟨(hplace _).mpr rfl, hmoved, ?_⟩
  rw [List.getLast?_eq_getElem?, hplace, hplace, hmoved, hall]
  omega

/-- Three empty source files, and those that are left when the first one is deleted. -/
def threeFiles : Files :=
  [(["p"], .directory), (["p", "A.kt"], .file []), (["p", "B.kt"], .file []),
    (["p", "C.kt"], .file [])]

def lastTwoFiles : Files :=
  [(["p"], .directory), (["p", "B.kt"], .file []), (["p", "C.kt"], .file [])]

/-- The application with some of these files open, after the second one was selected. -/
def onSecondFile (openFiles : List Path) : App :=
  let w := Explorer.oneFileWorld.withFiles threeFiles
  (init w .standard Explorer.oneFileProject openFiles).run
    [(w, .press .tab false), (w, .press .down false), (w, .press .enter false)]

/-- Where the cursor is on the last file, it follows this file up when the one above is deleted. -/
theorem cursor_follows_last_file :
    let a := onSecondFile [⟨"/p/A.kt"⟩, ⟨"/p/B.kt"⟩]
    let after := a.tick (Explorer.oneFileWorld.withFiles lastTwoFiles) 1000
    a.openFiles.Nodup ∧ a.openFiles[a.fileCursor]? = some ⟨"/p/B.kt"⟩ ∧
      after.openFiles = [⟨"/p/B.kt"⟩] ∧ after.openFiles[after.fileCursor]? = some ⟨"/p/B.kt"⟩ := by
  intro a after
  have hnodup : a.openFiles.Nodup := by decide +kernel
  have hcursor : a.openFiles[a.fileCursor]? = some ⟨"/p/B.kt"⟩ := by decide +kernel
  have hleft : after.openFiles = [⟨"/p/B.kt"⟩] := by decide +kernel
  have hopen : ⟨"/p/B.kt"⟩ ∈ after.openFiles := by simp [hleft]
  obtain ⟨-, -, hsame⟩ := cursor_on_same_file_iff a _ 1000 _ hnodup hcursor hopen
  exact ⟨hnodup, hcursor, hleft, hsame.mpr (.inr (by rw [hleft]; rfl))⟩

/-- Where another file stands below it, the cursor comes to be on that one. The selected file stays
selected. -/
theorem cursor_displaced :
    let a := onSecondFile [⟨"/p/A.kt"⟩, ⟨"/p/B.kt"⟩, ⟨"/p/C.kt"⟩]
    let after := a.tick (Explorer.oneFileWorld.withFiles lastTwoFiles) 1000
    a.openFiles.Nodup ∧ a.openFiles[a.fileCursor]? = some ⟨"/p/B.kt"⟩ ∧
      ⟨"/p/B.kt"⟩ ∈ after.openFiles ∧ after.openFiles[after.fileCursor]? = some ⟨"/p/C.kt"⟩ ∧
      after.explorer.selectedFile = some ⟨"/p/B.kt"⟩ := by
  decide +kernel

end App

end SpecLens
