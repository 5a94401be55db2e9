import SpecLens.Proofs.App.GoneFiles
import SpecLens.Proofs.Explorer.Refresh

/-!
# What a poll finds

Every so often the open files are looked at. What is shown afterwards is what a refresh would show,
if a change was noticed or if the watcher had noted the contents that were shown. Files that are gone
are closed and not looked at any more, and a change that is undone before the next look is not seen.
-/

namespace SpecLens

/-- A refresh would show the rows that are shown. -/
def Explorer.Fresh (e : Explorer) (w : World) : Prop :=
  e.outline.contents = (e.refresh w).outline.contents

instance (e : Explorer) (w : World) : Decidable (e.Fresh w) := inferInstanceAs (Decidable (_ = _))

namespace Explorer

variable {e : Explorer} {w : World}

lemma indexing_refresh (e : Explorer) (w : World) :
    (e.refresh w).gate.indexing = e.gate.indexing := by
  unfold refresh
  split
  · rfl
  · split
    · rfl
    · unfold Gate.submit
      cases h : e.gate.indexing <;> simp [render, h]

lemma refresh_fresh (h : e.gate.indexing = false) : (e.refresh w).Fresh w := by
  rw [Fresh, contents_refresh_of_idle ((indexing_refresh e w).trans h), contents_refresh_of_idle h,
    selectedFile_refresh, rowsOf_congr (refresh_sameSetting e w)]

lemma outlineOf_of_unreadable {file : Path} {cause : DiskError}
    (h : w.disk.read file = .error cause) : e.outlineOf w file = .empty :=
  outlineOf_eq_empty_iff.mpr (.unreadable cause (Disk.readText_error_of_read h))

/-- The rows of a file depend on nothing but its contents. -/
lemma rowsOf_eq_of_digest? {disks : List Files} {files files' : Files} {file : Path}
    (hdigests : DigestsDiffer disks) (hmem : files ∈ disks) (hmem' : files' ∈ disks)
    (h : (w.withFiles files).disk.digest? file = (w.withFiles files').disk.digest? file) :
    e.rowsOf (some ⟨w.withFiles files, file⟩) = e.rowsOf (some ⟨w.withFiles files', file⟩) := by
  unfold Disk.digest? at h
  show (e.outlineOf (w.withFiles files) file).contents =
    (e.outlineOf (w.withFiles files') file).contents
  cases hread : (w.withFiles files).disk.read file with
  | ok c =>
    cases hread' : (w.withFiles files').disk.read file with
    | ok c' =>
      rw [hread, hread'] at h
      have hsame : c = c' := hdigests c c' ⟨files, hmem, Disk.mem_entries_of_read hread⟩
        ⟨files', hmem', Disk.mem_entries_of_read hread'⟩ (Option.some.inj h)
      rw [← hsame] at hread'
      have hmodule : e.project.moduleOf? (w.withFiles files).disk file =
          e.project.moduleOf? (w.withFiles files').disk file :=
        Project.moduleOf?_congr rfl hread hread'
      have hload : e.discovery.load (w.withFiles files) file =
          e.discovery.load (w.withFiles files') file :=
        Discovery.load_congr rfl hread hread'
      rw [contents_outlineOf, contents_outlineOf, hmodule, Discovery.specsOfFile,
        Discovery.specsOfFile, hload]
    | error _ =>
      rw [hread, hread'] at h
      simp at h
  | error _ =>
    cases hread' : (w.withFiles files').disk.read file with
    | ok _ =>
      rw [hread, hread'] at h
      simp at h
    | error _ =>
      rw [outlineOf_of_unreadable hread, outlineOf_of_unreadable hread']

end Explorer

namespace App

variable {a : App} {w : World} {milliseconds : Nat}

/-- A look at the open files finds one changed that has the name of the selected file. -/
def notices (a : App) (w : World) : Bool :=
  a.explorer.selectedFile.any fun file => (a.changes w).any (·.fileName? == file.fileName?)

lemma filesChanged_changes (a : App) (w : World) : a.explorer.filesChanged w (a.changes w) =
    if a.notices w then a.explorer.refresh w else a.explorer := by
  unfold Explorer.filesChanged notices
  cases a.explorer.selectedFile with
  | none => rfl
  | some file => rfl

/-- A look at the open files refreshes the explorer if it notices a change, and does nothing to it
otherwise. -/
lemma explorer_of_polls (hpolls : a.polls milliseconds = true) :
    (a.tick w milliseconds).explorer =
      if a.notices w then a.explorer.refresh w else a.explorer := by
  rw [tick_of_polls hpolls]
  split
  · rename_i hempty
    have hnot : a.notices w = false := by
      rw [notices, List.isEmpty_iff.mp hempty]
      cases a.explorer.selectedFile <;> rfl
    simp [hnot, looked]
  · rw [explorer_filesChanged]
    exact filesChanged_changes a w

lemma mem_changes {file : Path} {noted : Option String}
    (hmem : (file, noted) ∈ a.watcher.watched) (h : noted ≠ w.disk.digest? file) :
    file ∈ a.changes w := by
  rw [changes, Watcher.poll, List.mem_mergeSort]
  exact List.mem_map_of_mem (List.mem_filter.mpr ⟨hmem, by simpa using h⟩)

/-- If no change is noticed, what was noted of the selected file is still right. -/
lemma noted_of_not_notices {file : Path} {noted : Option String}
    (hselected : a.explorer.selectedFile = some file) (hmem : (file, noted) ∈ a.watcher.watched)
    (hnot : a.notices w = false) : noted = w.disk.digest? file := by
  by_contra hdiffer
  simp only [notices, hselected, Option.any_some, List.any_eq_false] at hnot
  exact hnot file (mem_changes hmem hdiffer) (by simp)

/-- What is not watched stays so until a scan opens files. -/
lemma not_isWatching_run {file : Path} (h : a.watcher.isWatching file = false)
    {events : List (World × Event)} (hscan : ∀ step ∈ events, ∀ i, step.2 ≠ .scanReports i) :
    (a.run events).watcher.isWatching file = false := by
  induction events generalizing a with
  | nil => exact h
  | cons step rest ih =>
    refine ih ?_ fun later hlater => hscan later (List.mem_cons_of_mem _ hlater)
    rw [watcher_handle]
    refine Watcher.not_isWatching_handleAll h fun p hwatch => ?_
    cases hevent : step.2 with
    | tick milliseconds =>
      rw [hevent, watcherEvents] at hwatch
      split at hwatch <;> simp at hwatch
    | scanReports i => exact hscan step List.mem_cons_self i hevent
    | press key control => simp [hevent, watcherEvents] at hwatch
    | startScan => simp [hevent, watcherEvents] at hwatch
    | openFile index => simp [hevent, watcherEvents] at hwatch

lemma not_isWatching_tick (h : a.Tidy) (hpolls : a.polls milliseconds = true) {file : Path}
    (hgone : file ∈ a.goneFiles w) : (a.tick w milliseconds).watcher.isWatching file = false := by
  have htidy : (a.tick w milliseconds).Tidy := h.handle w (.tick milliseconds)
  rw [htidy.watches, List.any_eq_false]
  intro f hf
  rw [((mem_openFiles_tick hpolls).mp hf).2 file hgone]
  exact Bool.false_ne_true

lemma outline_of_gone (hidle : a.explorer.gate.indexing = false)
    (hpolls : a.polls milliseconds = true) {file : Path}
    (hselected : a.explorer.selectedFile = some file) (hgone : file ∈ a.goneFiles w) :
    (a.tick w milliseconds).explorer.outline = .empty := by
  obtain ⟨hchanged, hmissing⟩ := List.mem_filter.mp hgone
  rw [Bool.not_eq_true'] at hmissing
  have hnotices : a.notices w = true := by
    rw [notices, hselected]
    exact List.any_eq_true.mpr ⟨file, hchanged, beq_self_eq_true _⟩
  obtain ⟨cause, hread⟩ := Disk.exists_read_error_of_not_exists hmissing
  rw [explorer_of_polls hpolls, if_pos hnotices, Explorer.outline_refresh hidle, hselected]
  exact Explorer.outlineOf_of_unreadable hread

/-- A file that a look at the open files finds gone is closed, and if it was selected, nothing is
shown any more. It is no longer watched: until a scan opens files, no later look finds it changed,
whatever is written under its name. -/
theorem gone_file_forgotten (h : a.Tidy) (hpolls : a.polls milliseconds = true) {file : Path}
    (hgone : file ∈ a.goneFiles w) :
    let after := a.tick w milliseconds
    (a.explorer.gate.indexing = false → a.explorer.selectedFile = some file →
      after.explorer.outline = .empty) ∧
    ∀ later, (∀ step ∈ later, ∀ i, step.2 ≠ Event.scanReports i) →
      (∀ f ∈ (after.run later).openFiles, f.same file = false) ∧
      ∀ now, ∀ f ∈ (after.run later).changes now, f.same file = false := by
  intro after
  refine ⟨fun hidle hselected => outline_of_gone hidle hpolls hselected hgone,
    fun later hscan => ?_⟩
  have htidy : (after.run later).Tidy := (h.handle w (.tick milliseconds)).run later
  have hunwatched : (after.run later).watcher.isWatching file = false :=
    not_isWatching_run (not_isWatching_tick h hpolls hgone) hscan
  refine ⟨fun f hf => ?_, fun now f hf => ?_⟩
  · rw [htidy.watches, List.any_eq_false] at hunwatched
    exact Bool.eq_false_iff.mpr (hunwatched f hf)
  · rw [changes, Watcher.poll, List.mem_mergeSort] at hf
    obtain ⟨entry, hentry, rfl⟩ := List.mem_map.mp hf
    rw [Watcher.isWatching, List.any_eq_false] at hunwatched
    exact Bool.eq_false_iff.mpr (hunwatched entry (List.mem_filter.mp hentry).1)

lemma watched_foldl_close (files : List Path) (a : App) :
    (files.foldl close a).watcher.watched ⊆ a.watcher.watched := by
  induction files generalizing a with
  | nil => exact fun _ h => h
  | cons file rest ih =>
    exact fun entry h => (List.mem_filter.mp (ih (a.close file) h)).1

/-- After a look at the open files, the watcher has noted their contents as they are. -/
lemma noted_of_polls (hpolls : a.polls milliseconds = true) {file : Path} {noted : Option String}
    (hmem : (file, noted) ∈ (a.tick w milliseconds).watcher.watched) :
    noted = w.disk.digest? file := by
  have hlooked : (file, noted) ∈ (a.looked w).watcher.watched := by
    rw [tick_of_polls hpolls] at hmem
    split at hmem
    · exact hmem
    · exact watched_foldl_close _ (a.looked w) hmem
  obtain ⟨entry, -, hentry⟩ := List.mem_map.mp hlooked
  cases hentry
  rfl

end App

namespace Session

variable {s : Session} {w : World} {files : Files}

/-- The rows of the selected file are shown, built from the contents that the watcher has noted. -/
def InSync (s : Session) : Prop :=
  ∀ file ∈ s.app.explorer.selectedFile, ∃ x ∈ s.sight, x.file = file ∧
    (file, x.world.disk.digest? file) ∈ s.app.watcher.watched

lemma Sound.fresh_of_inSync {seen : List Files} (h : s.Sound w seen) {disks : List Files}
    (hdigests : DigestsDiffer disks) (hseen : seen ⊆ disks) (hmem : files ∈ disks)
    (hidle : s.app.explorer.gate.indexing = false) (hsync : s.InSync)
    (hnot : s.app.notices (w.withFiles files) = false) :
    s.app.explorer.Fresh (w.withFiles files) := by
  rw [Explorer.Fresh, Explorer.contents_refresh_of_idle hidle, h.shown]
  cases hselected : s.app.explorer.selectedFile with
  | none =>
    rw [(h.blank hselected).1]
    rfl
  | some file =>
    obtain ⟨⟨world, file⟩, hx, rfl, hnoted⟩ := hsync file hselected
    obtain ⟨before, hbefore, rfl⟩ := h.read _ hx
    rw [Option.mem_def.mp hx]
    exact Explorer.rowsOf_eq_of_digest? hdigests (hseen hbefore) hmem
      (App.noted_of_not_notices hselected hnoted hnot)

lemma sight_of_polls {milliseconds : Nat} (hpolls : s.app.polls milliseconds = true)
    (hidle : s.app.explorer.gate.indexing = false) :
    (s.handle w files (.tick milliseconds)).sight =
      if s.app.notices (w.withFiles files) then
        s.app.explorer.selectedFile.map (⟨w.withFiles files, ·⟩)
      else s.sight := by
  simp only [handle, App.explorerEvents, hpolls, Bool.true_and]
  cases hempty : (s.app.changes (w.withFiles files)).isEmpty with
  | true =>
    have hnot : s.app.notices (w.withFiles files) = false := by
      rw [App.notices, List.isEmpty_iff.mp hempty]
      cases s.app.explorer.selectedFile <;> rfl
    rw [hnot]
    rfl
  | false =>
    unfold App.notices
    cases hselected : s.app.explorer.selectedFile with
    | none => simp [Explorer.sightAfter, Explorer.look, Explorer.drawn?, hselected]
    | some file =>
      have hdrawn : s.app.explorer.refreshed? (w.withFiles files) = some (some file) := by
        simp [Explorer.refreshed?, hselected, hidle]
      simp only [Option.any_some, Bool.not_false, if_true, List.map_cons, List.map_nil,
        Explorer.sightAfter, Explorer.look, Explorer.drawn?, hselected, hdrawn]
      by_cases hchanged :
          ((s.app.changes (w.withFiles files)).any (·.fileName? == file.fileName?)) = true
      · rw [if_pos hchanged, if_pos hchanged]
      · rw [if_neg hchanged, if_neg hchanged]

/-- In a run, a look at the open files that notices a change of the selected file, or that finds what
is shown to be what the watcher has noted, leaves shown what a refresh would show. What is shown is
then what the watcher has noted, unless the selected file is gone and closed. A look that notices
nothing leaves the explorer as it is. -/
theorem poll_fresh (w : World) (config : Config) (project : Project) (openFiles : List Path)
    (events : List (Files × App.Event)) (files : Files) (milliseconds : Nat)
    (hdigests : DigestsDiffer (events.map (·.1) ++ [files]))
    (hpolls : ((init w config project openFiles).run w events).app.polls milliseconds = true)
    (hidle : ((init w config project openFiles).run w events).app.explorer.gate.indexing = false) :
    let s := (init w config project openFiles).run w events
    let now := w.withFiles files
    let after := s.handle w files (.tick milliseconds)
    (s.InSync ∨ s.app.notices now = true → after.app.explorer.Fresh now ∧
      ((∀ file ∈ after.app.explorer.selectedFile, file ∈ after.app.watcher.watched.map (·.1)) →
        after.InSync)) ∧
    (s.app.notices now = false → after.app.explorer = s.app.explorer) := by
  intro s now after
  have hsound : s.Sound w (events.map (·.1)) := (Sound.init config project openFiles).run events
  have hexplorer : after.app.explorer =
      if s.app.notices now then s.app.explorer.refresh now else s.app.explorer :=
    App.explorer_of_polls hpolls
  have hsight : after.sight = if s.app.notices now then
      s.app.explorer.selectedFile.map (⟨now, ·⟩) else s.sight := sight_of_polls hpolls hidle
  refine ⟨fun hcause => ⟨?_, fun hwatched file hfile => ?_⟩, fun hnot => ?_⟩
  · cases hnotices : s.app.notices now with
    | true =>
      rw [hexplorer, if_pos hnotices]
      exact Explorer.refresh_fresh hidle
    | false =>
      rw [hexplorer, hnotices]
      have hsync : s.InSync := hcause.resolve_right (by simp [hnotices])
      exact hsound.fresh_of_inSync hdigests (by simp) (by simp) hidle hsync hnotices
  · obtain ⟨⟨_, noted⟩, hmem, rfl⟩ := List.mem_map.mp (hwatched file hfile)
    cases App.noted_of_polls hpolls hmem
    cases hnotices : s.app.notices now with
    | true =>
      rw [hexplorer, if_pos hnotices, Explorer.selectedFile_refresh] at hfile
      rw [if_pos hnotices, Option.mem_def.mp hfile] at hsight
      exact ⟨⟨now, _⟩, hsight, rfl, hmem⟩
    | false =>
      rw [hexplorer, hnotices] at hfile
      obtain ⟨x, hx, hxfile, hnoted⟩ := hcause.resolve_right (by simp [hnotices]) _ hfile
      rw [hnotices] at hsight
      refine ⟨x, hsight.trans hx, hxfile, ?_⟩
      rw [App.noted_of_not_notices hfile hnoted hnotices]
      exact hmem
  · rw [hexplorer, hnot]
    rfl

def oneFile (contents : List UInt8) : Files :=
  [(["p"], .directory), (["p", "A.kt"], .file contents)]

/-- A spec with a test that is written to an empty file is noticed, and it is shown. -/
theorem poll_fresh_after_write :
    let w := Explorer.singleTestWorld.withFiles (oneFile [])
    let written := oneFile (Text.toBytes Explorer.singleTest.chars)
    let s := (init w .standard Explorer.oneFileProject [⟨"/p/A.kt"⟩]).run w
      [(oneFile [], .openFile 0)]
    let after := s.handle w written (.tick 1000)
    DigestsDiffer [oneFile [], written] ∧ s.app.polls 1000 = true ∧
      s.app.explorer.gate.indexing = false ∧ s.app.notices (w.withFiles written) = true ∧
      after.app.explorer.Fresh (w.withFiles written) ∧
      s.app.explorer.outline.rows.length = 2 ∧ after.app.explorer.outline.rows.length = 4 := by
  intro w written s after
  have hdigests : DigestsDiffer [oneFile [], written] := by decide +kernel
  have hpolls : s.app.polls 1000 = true := by decide +kernel
  have hidle : s.app.explorer.gate.indexing = false := by decide +kernel
  have hnotices : s.app.notices (w.withFiles written) = true := by decide +kernel
  have hbefore : s.app.explorer.outline.rows.length = 2 := by decide +kernel
  have hafter : after.app.explorer.outline.rows.length = 4 := by decide +kernel
  have hfresh := poll_fresh w .standard Explorer.oneFileProject [⟨"/p/A.kt"⟩]
    [(oneFile [], .openFile 0)] written 1000 hdigests hpolls hidle
  exact ⟨hdigests, hpolls, hidle, hnotices, (hfresh.1 (.inr hnotices)).1, hbefore, hafter⟩

/-- A file that is gone when the open files are looked at is not seen when it is written again. -/
theorem poll_misses_written_again :
    let w := Explorer.oneFileWorld
    let s := (init w .standard Explorer.oneFileProject [⟨"/p/A.kt"⟩]).run w
      [(oneFile [], .openFile 0), ([(["p"], .directory)], .tick 1000)]
    s.app.polls 1000 = true ∧ s.app.explorer.gate.indexing = false ∧
      ¬(s.handle w (oneFile []) (.tick 1000)).app.explorer.Fresh (w.withFiles (oneFile [])) := by
  decide +kernel

/-- Contents that a refresh shows between two looks stay shown when those that the watcher has noted
are restored: no change is noticed then. -/
theorem poll_misses_restored_contents :
    let w := Explorer.singleTestWorld.withFiles (oneFile [])
    let s := (init w .standard Explorer.oneFileProject [⟨"/p/A.kt"⟩]).run w
      [(oneFile [], .openFile 0),
        (oneFile (Text.toBytes Explorer.singleTest.chars), .press (.char 'R') false)]
    s.app.polls 1000 = true ∧ s.app.explorer.gate.indexing = false ∧
      s.app.notices w = false ∧ ¬(s.handle w (oneFile []) (.tick 1000)).app.explorer.Fresh w := by
  decide +kernel

end Session

end SpecLens
