import SpecLens.Proofs.App.Run
import SpecLens.Proofs.Project.Watcher

/-!
# The open files

At every time the cursor is on an open file, if there is one, and the open files are those that are
watched. The handlers that open and close files change the list, the cursor and the watcher together.
-/

namespace SpecLens.App

/-- An application after some events, each with the world as it is at that time. -/
def run (a : App) (events : List (World × Event)) : App :=
  events.foldl (fun a step => a.handle step.1 step.2) a

/-- The files that are watched are the open ones. -/
def Watches (a : App) : Prop :=
  ∀ file, a.watcher.isWatching file = a.openFiles.any (·.same file)

/-- The cursor is not behind the last open file, and the open files are watched. -/
structure Tidy (a : App) : Prop where
  cursor : a.fileCursor ≤ a.openFiles.length - 1
  watches : a.Watches

variable {a b : App}

/-- The list and the watcher stay as they are. -/
lemma Tidy.moved (h : a.Tidy) (hfiles : b.openFiles = a.openFiles) (hwatcher : b.watcher = a.watcher)
    (hcursor : b.fileCursor ≤ a.openFiles.length - 1) : b.Tidy := by
  refine ⟨hfiles ▸ hcursor, fun file => ?_⟩
  rw [hwatcher, hfiles]
  exact h.watches file

lemma tidy_init (w : World) (config : Config) (project : Project) (openFiles : List Path) :
    (init w config project openFiles).Tidy := by
  refine ⟨Nat.zero_le _, fun file => ?_⟩
  exact Watcher.isWatching_foldl (fun watcher => watcher.isWatching_watch w.disk) openFiles .empty file

lemma Tidy.selectFile (h : a.Tidy) (w : World) (index : Nat) : (a.selectFile w index).Tidy := by
  unfold App.selectFile
  split
  case h_1 file hfile =>
    have hlt : index < a.openFiles.length := (List.getElem?_eq_some_iff.mp hfile).1
    exact h.moved rfl rfl (Nat.le_sub_one_of_lt hlt)
  case h_2 => exact h

lemma Tidy.moveDown (h : a.Tidy) : a.moveDown.Tidy := by
  unfold App.moveDown
  split
  · split
    · exact h.moved rfl rfl (Nat.le_sub_one_of_lt ‹_›)
    · exact h
  · exact h.moved rfl rfl h.cursor

lemma Tidy.moveUp (h : a.Tidy) : a.moveUp.Tidy := by
  unfold App.moveUp
  split
  · exact h.moved rfl rfl (Nat.le_trans (Nat.sub_le _ _) h.cursor)
  · exact h.moved rfl rfl h.cursor

lemma Tidy.activate (h : a.Tidy) (w : World) : (a.activate w).Tidy := by
  unfold App.activate
  split
  · exact h.selectFile w a.fileCursor
  · exact h.moved rfl rfl h.cursor

lemma Tidy.runSelected (h : a.Tidy) (mode : RunMode) : (a.runSelected mode).Tidy := by
  unfold App.runSelected
  split <;> exact h.moved rfl rfl h.cursor

lemma Tidy.press (h : a.Tidy) (w : World) (key : Key) (control : Bool) :
    (a.press w key control).Tidy := by
  cases key with
  | enter => exact h.activate w
  | down => exact h.moveDown
  | up => exact h.moveUp
  | escape => exact h.moved rfl rfl h.cursor
  | tab => exact h.moved rfl rfl h.cursor
  | unknown => exact h
  | char c =>
    unfold App.press
    dsimp only
    split
    case h_1 => exact h.moved rfl rfl h.cursor
    case h_2 =>
      split
      · exact h.moved rfl rfl h.cursor
      · exact h.runSelected .coverage
    case h_3 => exact h.moveDown
    case h_4 => exact h.moveUp
    case h_5 => exact h.activate w
    case h_6 => exact h.runSelected .run
    case h_7 => exact h.runSelected .debug
    case h_8 => exact h.moved rfl rfl h.cursor
    case h_9 => exact h.moved rfl rfl h.cursor
    case h_10 => exact h.moved rfl rfl h.cursor
    case h_11 => exact h

lemma Watches.close (h : a.Watches) (file : Path) : (a.close file).Watches := by
  intro other
  rw [App.close, Watcher.isWatching_unwatch, h other, Path.any_same_filter]

lemma Watches.foldl_close (h : a.Watches) (files : List Path) : (files.foldl App.close a).Watches := by
  induction files generalizing a with
  | nil => exact h
  | cons file rest ih => exact ih (h.close file)

/-- Files that are gone leave the list and the watcher, and the cursor stays on the list. -/
lemma Watches.filesChanged (h : a.Watches) (w : World) (changed : List Path) :
    (a.filesChanged w changed).Tidy :=
  ⟨Nat.min_le_right _ _, h.foldl_close _⟩

lemma Tidy.looked (h : a.Tidy) (w : World) : (a.looked w).Tidy :=
  ⟨h.cursor, fun file => (Watcher.isWatching_poll _ _ _).trans (h.watches file)⟩

lemma Tidy.tick (h : a.Tidy) (w : World) (milliseconds : Nat) : (a.tick w milliseconds).Tidy := by
  cases hpolls : a.polls milliseconds with
  | false =>
    rw [tick_of_not_polls hpolls]
    exact h.moved rfl rfl h.cursor
  | true =>
    rw [tick_of_polls hpolls]
    split
    · exact h.looked w
    · exact (h.looked w).watches.filesChanged w _

/-- Nothing is watched before the files of an index are opened, so that only they are watched then. -/
lemma Tidy.openIndexed (h : a.Tidy) (w : World) (i : ProjectIndex) : (a.openIndexed w i).Tidy := by
  unfold App.openIndexed
  split
  case isTrue hempty =>
    have hnone : a.openFiles = [] := List.isEmpty_iff.mp hempty
    have hcursor : a.fileCursor = 0 := by simpa [hnone] using h.cursor
    apply selectFile
    refine ⟨Nat.le_trans (Nat.le_of_eq hcursor) (Nat.zero_le _), fun file => ?_⟩
    rw [Watcher.isWatching_foldl, h.watches file, hnone]
    · simp
    · intro watcher p q
      split
      case isTrue hwatching => exact (Watcher.isWatching_or_same hwatching q).symm
      case isFalse => exact watcher.isWatching_watch w.disk p q
  case isFalse => exact h

lemma Tidy.scanFinished (h : a.Tidy) (w : World) (i : ProjectIndex) : (a.scanFinished w i).Tidy := by
  have hstatus : { a with status := some (scanSummary i) }.Tidy := h.moved rfl rfl h.cursor
  have hopened := hstatus.openIndexed w i
  exact hopened.moved rfl rfl hopened.cursor

lemma Tidy.handle (h : a.Tidy) (w : World) (event : Event) : (a.handle w event).Tidy := by
  cases event with
  | press key control => exact h.press w key control
  | tick milliseconds => exact h.tick w milliseconds
  | startScan => exact h.moved rfl rfl h.cursor
  | scanReports i =>
    unfold App.handle
    dsimp only
    split
    · have hreported : { a with scanning := false }.Tidy := h.moved rfl rfl h.cursor
      exact hreported.scanFinished w i
    · exact h
  | openFile index => exact h.selectFile w index

lemma Tidy.run (h : a.Tidy) (events : List (World × Event)) : (a.run events).Tidy := by
  induction events generalizing a with
  | nil => exact h
  | cons step rest ih => exact ih (h.handle step.1 step.2)

/-- In every run, the cursor is on an open file unless there is none, and the watched files are
exactly the open ones. -/
theorem open_files_watched (w : World) (config : Config) (project : Project) (openFiles : List Path)
    (events : List (World × Event)) :
    let a := (init w config project openFiles).run events
    (a.fileCursor < a.openFiles.length ∨ a.openFiles = [] ∧ a.fileCursor = 0) ∧
      ∀ file, a.watcher.isWatching file = true ↔ ∃ f ∈ a.openFiles, f.same file = true := by
  intro a
  have htidy : a.Tidy := (tidy_init w config project openFiles).run events
  constructor
  · have hcursor := htidy.cursor
    cases hfiles : a.openFiles with
    | nil =>
      rw [hfiles] at hcursor
      exact .inr ⟨rfl, Nat.le_zero.mp hcursor⟩
    | cons file rest =>
      rw [hfiles] at hcursor
      exact .inl (Nat.lt_succ_of_le hcursor)
  · intro file
    rw [htidy.watches file, List.any_eq_true]

end SpecLens.App
