import SpecLens.App.Basic
import SpecLens.Proofs.Disk.Reading
import SpecLens.Proofs.Explorer.Sight

/-!
# Runs of the application

A run is a sequence of events, each with the files as they are at that time. What an event does to
the explorer is a run of the explorer of its own, so it is known throughout which file is shown and
as of when.
-/

namespace SpecLens

/-- The same world with other files. -/
def World.withFiles (w : World) (files : Files) : World :=
  { w with disk := { w.disk with entries := files } }

namespace App

/-- What happens to the application. A scan may have seen the project as it was at any time, so its
result is arbitrary. -/
inductive Event where
  | press (key : Key) (control : Bool)
  | tick (milliseconds : Nat)
  | startScan
  | scanReports (i : ProjectIndex)
  | openFile (index : Nat)

def handle (a : App) (w : World) : Event → App
  | .press key control => a.press w key control
  | .tick milliseconds => a.tick w milliseconds
  | .startScan => a.startScan
  | .scanReports i => if a.scanning then { a with scanning := false }.scanFinished w i else a
  | .openFile index => a.selectFile w index

lemma scanArrives_eq (a : App) (w : World) :
    a.scanArrives w = a.handle w (.scanReports (a.scan w)) := rfl

/-- The selection of a file of a list. -/
def selection (files : List Path) (index : Nat) : List Explorer.Event :=
  (files[index]?).toList.map fun file => .select (some file)

/-- An event for the outline, if that receives the keys. -/
def forOutline (a : App) (m : Outline.Move) : List Explorer.Event :=
  match a.focus with
  | .files => []
  | .outline => [.move m]

def activation (a : App) : List Explorer.Event :=
  match a.focus with
  | .files => selection a.openFiles a.fileCursor
  | .outline => [.move .toggle]

/-- What a key does to the explorer. -/
def pressed (a : App) : Key → List Explorer.Event
  | .enter => a.activation
  | .down => a.forOutline .next
  | .up => a.forOutline .previous
  | .char 'j' => a.forOutline .next
  | .char 'k' => a.forOutline .previous
  | .char ' ' => a.activation
  | .char 'e' => [.move .expandAll]
  | .char 'x' => [.move .collapseAll]
  | .char 'R' => [.refresh]
  | _ => []

/-- Whether the open files are looked at when time passes. -/
def polls (a : App) (milliseconds : Nat) : Bool :=
  a.config.explorer.pollInterval ≤ a.sincePoll + milliseconds

/-- The files that a look at the open ones finds changed. -/
def changes (a : App) (w : World) : List Path := (a.watcher.poll w.disk).1

/-- What an event does to the explorer. -/
def explorerEvents (a : App) (w : World) : Event → List Explorer.Event
  | .press key _ => a.pressed key
  | .tick milliseconds =>
    if a.polls milliseconds && !(a.changes w).isEmpty then [.filesChanged (a.changes w)] else []
  | .startScan => [.beginIndexing]
  | .scanReports i =>
    if a.scanning then
      (if a.openFiles.isEmpty then selection (i.files.map (·.path)) 0 else []) ++ [.indexingFinished]
    else []
  | .openFile index => selection a.openFiles index

variable {a : App} {w : World}

lemma explorer_selectFile (a : App) (w : World) (index : Nat) :
    (a.selectFile w index).explorer =
      a.explorer.run ((selection a.openFiles index).map (w, ·)) := by
  unfold selectFile selection
  cases a.openFiles[index]? <;> rfl

lemma explorer_activate (a : App) (w : World) :
    (a.activate w).explorer = a.explorer.run (a.activation.map (w, ·)) := by
  unfold activate activation
  cases a.focus with
  | files => exact explorer_selectFile a w a.fileCursor
  | outline => rfl

lemma explorer_moveDown (a : App) (w : World) :
    a.moveDown.explorer = a.explorer.run ((a.forOutline .next).map (w, ·)) := by
  unfold moveDown forOutline
  cases a.focus with
  | files => dsimp only; split <;> rfl
  | outline => rfl

lemma explorer_moveUp (a : App) (w : World) :
    a.moveUp.explorer = a.explorer.run ((a.forOutline .previous).map (w, ·)) := by
  unfold moveUp forOutline
  cases a.focus <;> rfl

lemma explorer_runSelected (a : App) (mode : RunMode) :
    (a.runSelected mode).explorer = a.explorer := by
  unfold runSelected
  split <;> rfl

lemma explorer_press (a : App) (w : World) (key : Key) (control : Bool) :
    (a.press w key control).explorer = a.explorer.run ((a.pressed key).map (w, ·)) := by
  cases key with
  | enter => exact explorer_activate a w
  | down => exact explorer_moveDown a w
  | up => exact explorer_moveUp a w
  | escape => rfl
  | tab => rfl
  | unknown => rfl
  | char c =>
    unfold press
    dsimp only
    split
    case h_1 => rfl
    case h_2 =>
      split
      · rfl
      · exact explorer_runSelected a .coverage
    case h_3 => exact explorer_moveDown a w
    case h_4 => exact explorer_moveUp a w
    case h_5 => exact explorer_activate a w
    case h_6 => exact explorer_runSelected a .run
    case h_7 => exact explorer_runSelected a .debug
    case h_8 => rfl
    case h_9 => rfl
    case h_10 => rfl
    case h_11 hj hk hblank _ _ he hx hR =>
      have hother : a.pressed (.char c) = [] := by
        unfold pressed
        split <;> simp_all
      rw [hother]
      rfl

lemma explorer_foldl_close (files : List Path) (a : App) :
    (files.foldl close a).explorer = a.explorer := by
  induction files generalizing a with
  | nil => rfl
  | cons file rest ih => exact ih (a.close file)

lemma explorer_filesChanged (a : App) (w : World) (changed : List Path) :
    (a.filesChanged w changed).explorer = a.explorer.filesChanged w changed := by
  unfold filesChanged
  dsimp only
  rw [explorer_foldl_close]

/-- The application after a look at the open files that finds no change. -/
def looked (a : App) (w : World) : App :=
  { a with sincePoll := 0, watcher := (a.watcher.poll w.disk).2 }

lemma tick_of_polls {milliseconds : Nat} (h : a.polls milliseconds = true) :
    a.tick w milliseconds =
      if (a.changes w).isEmpty then a.looked w else (a.looked w).filesChanged w (a.changes w) := by
  have hdue : ¬a.sincePoll + milliseconds < a.config.explorer.pollInterval := by
    simpa [polls] using h
  exact if_neg hdue

lemma tick_of_not_polls {milliseconds : Nat} (h : a.polls milliseconds = false) :
    a.tick w milliseconds = { a with sincePoll := a.sincePoll + milliseconds } := by
  have hwait : a.sincePoll + milliseconds < a.config.explorer.pollInterval := by
    simpa [polls] using h
  exact if_pos hwait

lemma explorer_tick (a : App) (w : World) (milliseconds : Nat) :
    (a.tick w milliseconds).explorer =
      a.explorer.run ((a.explorerEvents w (.tick milliseconds)).map (w, ·)) := by
  cases hpolls : a.polls milliseconds with
  | false =>
    rw [tick_of_not_polls hpolls]
    simp only [explorerEvents, hpolls]
    rfl
  | true =>
    rw [tick_of_polls hpolls]
    simp only [explorerEvents, hpolls]
    cases (a.changes w).isEmpty with
    | true => rfl
    | false => exact explorer_filesChanged (a.looked w) w (a.changes w)

lemma explorer_openIndexed (a : App) (w : World) (i : ProjectIndex) :
    (a.openIndexed w i).explorer = a.explorer.run
      ((if a.openFiles.isEmpty then selection (i.files.map (·.path)) 0 else []).map (w, ·)) := by
  unfold openIndexed
  split
  · exact explorer_selectFile _ w 0
  · rfl

lemma explorer_handle (a : App) (w : World) (event : Event) :
    (a.handle w event).explorer = a.explorer.run ((a.explorerEvents w event).map (w, ·)) := by
  cases event with
  | press key control => exact explorer_press a w key control
  | tick milliseconds => exact explorer_tick a w milliseconds
  | startScan => rfl
  | scanReports i =>
    unfold handle explorerEvents
    dsimp only
    split
    · rw [List.map_append, Explorer.run_append]
      exact congrArg (·.indexingFinished w) (explorer_openIndexed _ w i)
    · rfl
  | openFile index => exact explorer_selectFile a w index

/-- The application never selects no file. -/
lemma select_of_mem_explorerEvents {event : Event} {file : Option Path}
    (h : .select file ∈ a.explorerEvents w event) : file ≠ none := by
  have hselection {files : List Path} {index : Nat}
      (hmem : .select file ∈ selection files index) : file ≠ none := by
    obtain ⟨f, -, hf⟩ := List.mem_map.mp hmem
    cases hf
    simp
  cases event with
  | press key control =>
    have hactivation (hmem : .select file ∈ a.activation) : file ≠ none := by
      unfold activation at hmem
      split at hmem
      · exact hselection hmem
      · simp at hmem
    have houtline {m : Outline.Move} (hmem : .select file ∈ a.forOutline m) : file ≠ none := by
      unfold forOutline at hmem
      split at hmem <;> simp at hmem
    unfold explorerEvents pressed at h
    dsimp only at h
    split at h
    all_goals first | exact hactivation h | exact houtline h | simp at h
  | tick milliseconds =>
    simp only [explorerEvents] at h
    split at h <;> simp at h
  | startScan => simp [explorerEvents] at h
  | scanReports i =>
    simp only [explorerEvents] at h
    split at h
    · rcases List.mem_append.mp h with h | h
      · split at h
        · exact hselection h
        · simp at h
      · simp at h
    · simp at h
  | openFile index => exact hselection h

end App

/-- An application, with what its explorer shows. -/
structure Session where
  app : App
  sight : Option Explorer.Sight

namespace Session

variable {s : Session} {w : World} {files : Files}

def init (w : World) (config : Config) (project : Project) (openFiles : List Path) : Session :=
  ⟨.init w config project openFiles, none⟩

/-- An event with the files as they are at that time. -/
def handle (w : World) (s : Session) (files : Files) (event : App.Event) : Session where
  app := s.app.handle (w.withFiles files) event
  sight := s.app.explorer.sightAfter s.sight
    ((s.app.explorerEvents (w.withFiles files) event).map (w.withFiles files, ·))

def run (w : World) (s : Session) (events : List (Files × App.Event)) : Session :=
  events.foldl (fun s step => s.handle w step.1 step.2) s

/-- What holds at every time of a run: the rows are those of what is shown, nothing is shown or waits
unless a file is selected, and what is shown was read during the run. -/
structure Sound (w : World) (seen : List Files) (s : Session) : Prop where
  shown : s.app.explorer.outline.contents = s.app.explorer.rowsOf s.sight
  blank : s.app.explorer.BlankUnselected s.sight
  read : ∀ x ∈ s.sight, ∃ files ∈ seen, x.world = w.withFiles files

lemma Sound.init (config : Config) (project : Project) (openFiles : List Path) :
    (init w config project openFiles).Sound w [] :=
  ⟨rfl, fun _ => ⟨rfl, rfl⟩, by simp [Session.init]⟩

lemma Sound.handle {seen : List Files} (h : s.Sound w seen) (event : App.Event) :
    (s.handle w files event).Sound w (seen ++ [files]) := by
  obtain ⟨hshown, hblank, hread⟩ := h
  have hexplorer := App.explorer_handle s.app (w.withFiles files) event
  refine ⟨?_, ?_, fun x hx => ?_⟩
  · simp only [Session.handle, hexplorer]
    exact Explorer.contents_run hshown _
  · simp only [Session.handle, hexplorer]
    apply hblank.run
    rintro ⟨_, event'⟩ hstep rfl
    obtain ⟨e, hmem, he⟩ := List.mem_map.mp hstep
    cases he
    exact App.select_of_mem_explorerEvents hmem rfl
  · rcases Explorer.world_of_sightAfter hx with hold | ⟨event', hstep⟩
    · obtain ⟨before, hbefore, hworld⟩ := hread x hold
      exact ⟨before, List.mem_append_left _ hbefore, hworld⟩
    · obtain ⟨e, -, he⟩ := List.mem_map.mp hstep
      exact ⟨files, by simp, (Prod.mk.inj he).1.symm⟩

lemma Sound.run {seen : List Files} (h : s.Sound w seen) (events : List (Files × App.Event)) :
    (s.run w events).Sound w (seen ++ events.map (·.1)) := by
  induction events generalizing s seen with
  | nil => simpa [Session.run] using h
  | cons step rest ih => simpa [Session.run] using ih (h.handle step.2)

end Session

end SpecLens
