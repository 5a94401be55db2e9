import SpecLens.Proofs.App.OpenFiles
import SpecLens.Proofs.Project.Polling
import SpecLens.Proofs.Style.TokenForm

/-!
# Files that are gone

When the open files are looked at, a file that is gone is closed if it had contents when it was last
looked at. One that could not be read then, such as a file that a scan listed and that was deleted
before the scan reported it, stays in the list.
-/

namespace SpecLens

/-- Files of a list that are not watched when it is their turn, each being watched from then on. -/
def Watcher.unwatched (watcher : Watcher) (d : Disk) : List Path → List Path
  | [] => []
  | file :: rest =>
    if watcher.isWatching file then watcher.unwatched d rest
    else file :: (watcher.watch d file).unwatched d rest

/-- A watcher after several events. -/
def Watcher.handleAll (watcher : Watcher) (d : Disk) (events : List Watcher.Event) : Watcher :=
  events.foldl (fun watcher event => watcher.handle d event) watcher

lemma Watcher.foldl_watch (d : Disk) (files : List Path) (watcher : Watcher) :
    files.foldl
      (fun watcher file => if watcher.isWatching file then watcher else watcher.watch d file)
      watcher = watcher.handleAll d ((watcher.unwatched d files).map .watch) := by
  induction files generalizing watcher with
  | nil => rfl
  | cons file rest ih =>
    rw [List.foldl_cons, unwatched]
    split
    · exact ih watcher
    · exact ih (watcher.watch d file)

/-- Polls and the end of watching do not make a file watched. -/
lemma Watcher.not_isWatching_handleAll {watcher : Watcher} {d : Disk} {file : Path}
    (h : watcher.isWatching file = false) {events : List Watcher.Event}
    (hevents : ∀ p, .watch p ∉ events) : (watcher.handleAll d events).isWatching file = false := by
  induction events generalizing watcher with
  | nil => exact h
  | cons event rest ih =>
    refine ih ?_ fun p hp => hevents p (List.mem_cons_of_mem _ hp)
    cases event with
    | watch p => exact (hevents p List.mem_cons_self).elim
    | unwatch p =>
      refine (isWatching_unwatch watcher p file).trans ?_
      rw [h, Bool.false_and]
    | poll => exact (isWatching_poll watcher d file).trans h

lemma Watcher.ofHistory_append (d : Disk) (events : List Watcher.Event) (history : History) :
    ofHistory (events.reverse.map (d, ·) ++ history) = (ofHistory history).handleAll d events := by
  induction events generalizing history with
  | nil => rfl
  | cons event rest ih =>
    rw [List.reverse_cons, List.map_append, List.append_assoc]
    exact ih ((d, event) :: history)

namespace App

/-- The files that a look at the open ones finds gone. -/
def goneFiles (a : App) (w : World) : List Path :=
  (a.changes w).filter fun file => !w.disk.exists? file

/-- Whether the files of an index that is reported are opened. -/
def opensIndexed (a : App) : Bool := a.scanning && a.openFiles.isEmpty

/-- What an event does to the watcher. -/
def watcherEvents (a : App) (w : World) : Event → List Watcher.Event
  | .tick milliseconds =>
    if a.polls milliseconds then .poll :: (a.goneFiles w).map .unwatch else []
  | .scanReports i =>
    if a.opensIndexed then (a.watcher.unwatched w.disk (i.files.map (·.path))).map .watch else []
  | _ => []

variable {a : App} {w : World}

lemma watcher_selectFile (a : App) (w : World) (index : Nat) :
    (a.selectFile w index).watcher = a.watcher := by
  unfold selectFile
  split <;> rfl

lemma watcher_activate (a : App) (w : World) : (a.activate w).watcher = a.watcher := by
  unfold activate
  split
  · exact watcher_selectFile a w a.fileCursor
  · rfl

lemma watcher_moveDown (a : App) : a.moveDown.watcher = a.watcher := by
  unfold moveDown
  split
  · split <;> rfl
  · rfl

lemma watcher_moveUp (a : App) : a.moveUp.watcher = a.watcher := by
  unfold moveUp
  split <;> rfl

lemma watcher_runSelected (a : App) (mode : RunMode) : (a.runSelected mode).watcher = a.watcher := by
  unfold runSelected
  split <;> rfl

lemma watcher_press (a : App) (w : World) (key : Key) (control : Bool) :
    (a.press w key control).watcher = a.watcher := by
  cases key with
  | enter => exact watcher_activate a w
  | down => exact watcher_moveDown a
  | up => exact watcher_moveUp a
  | escape => rfl
  | tab => rfl
  | unknown => rfl
  | char c =>
    unfold press
    dsimp only
    split
    case h_2 =>
      split
      · rfl
      · exact watcher_runSelected a .coverage
    case h_3 => exact watcher_moveDown a
    case h_4 => exact watcher_moveUp a
    case h_5 => exact watcher_activate a w
    case h_6 => exact watcher_runSelected a .run
    case h_7 => exact watcher_runSelected a .debug
    all_goals rfl

lemma foldl_close_watcher (files : List Path) (a : App) (d : Disk) :
    (files.foldl close a).watcher = a.watcher.handleAll d (files.map .unwatch) := by
  induction files generalizing a with
  | nil => rfl
  | cons file rest ih => exact ih (a.close file)

lemma watcher_tick (a : App) (w : World) (milliseconds : Nat) :
    (a.tick w milliseconds).watcher =
      a.watcher.handleAll w.disk (a.watcherEvents w (.tick milliseconds)) := by
  cases hpolls : a.polls milliseconds with
  | false =>
    rw [tick_of_not_polls hpolls]
    simp only [watcherEvents, hpolls]
    rfl
  | true =>
    rw [tick_of_polls hpolls]
    simp only [watcherEvents, hpolls, if_true]
    split
    case isTrue hempty =>
      rw [goneFiles, List.isEmpty_iff.mp hempty]
      rfl
    case isFalse =>
      exact foldl_close_watcher (a.goneFiles w) (a.looked w) w.disk

lemma watcher_handle (a : App) (w : World) (event : Event) :
    (a.handle w event).watcher = a.watcher.handleAll w.disk (a.watcherEvents w event) := by
  cases event with
  | press key control => exact watcher_press a w key control
  | tick milliseconds => exact watcher_tick a w milliseconds
  | startScan => rfl
  | openFile index => exact watcher_selectFile a w index
  | scanReports i =>
    unfold handle watcherEvents opensIndexed
    dsimp only
    cases hscanning : a.scanning with
    | false => rfl
    | true =>
      cases hempty : a.openFiles.isEmpty with
      | false => simp [scanFinished, openIndexed, hempty, Watcher.handleAll]
      | true =>
        simp only [scanFinished, openIndexed, hempty, if_true, Bool.and_self, watcher_selectFile,
          Watcher.foldl_watch]

lemma openFiles_foldl_close (files : List Path) (a : App) : (files.foldl close a).openFiles =
    a.openFiles.filter fun file => files.all fun gone => !file.same gone := by
  induction files generalizing a with
  | nil => simp
  | cons gone rest ih =>
    rw [List.foldl_cons, ih (a.close gone), close, List.filter_filter]
    simp only [List.all_cons, Bool.and_comm]

/-- Whether a file stays open when time passes. -/
def keeps (a : App) (w : World) (milliseconds : Nat) (file : Path) : Bool :=
  !a.polls milliseconds || (a.goneFiles w).all fun gone => !file.same gone

lemma openFiles_tick (a : App) (w : World) (milliseconds : Nat) :
    (a.tick w milliseconds).openFiles = a.openFiles.filter (a.keeps w milliseconds) := by
  unfold keeps
  cases hpolls : a.polls milliseconds with
  | false =>
    rw [tick_of_not_polls hpolls]
    simp
  | true =>
    rw [tick_of_polls hpolls]
    split
    case isTrue hempty => simp [goneFiles, List.isEmpty_iff.mp hempty, looked]
    case isFalse => exact openFiles_foldl_close (a.goneFiles w) (a.looked w)

lemma mem_openFiles_tick {milliseconds : Nat} (hpolls : a.polls milliseconds = true) {file : Path} :
    file ∈ (a.tick w milliseconds).openFiles ↔
      file ∈ a.openFiles ∧ ∀ gone ∈ a.goneFiles w, file.same gone = false := by
  rw [openFiles_tick, List.mem_filter]
  simp [keeps, hpolls]

/-- An open file stays in the list exactly if the name that it is watched under leads somewhere or
nothing was noted of its contents. -/
lemma mem_openFiles_tick_iff {milliseconds : Nat} (hpolls : a.polls milliseconds = true)
    (hdistinct : a.watcher.Distinct) {file name : Path} {noted : Option String}
    (hfind : a.watcher.find? file = some (name, noted)) :
    file ∈ (a.tick w milliseconds).openFiles ↔
      file ∈ a.openFiles ∧ (w.disk.exists? name = true ∨ noted = none) := by
  rw [mem_openFiles_tick hpolls, and_congr_right_iff]
  intro _
  have hname : name.same file = true := Watcher.same_of_find? hfind
  have hgone (gone : Path) : gone ∈ a.goneFiles w ↔
      (∃ noted, a.watcher.find? gone = some (gone, noted) ∧ noted ≠ w.disk.digest? gone) ∧
        w.disk.exists? gone = false := by
    rw [goneFiles, List.mem_filter, changes, Watcher.mem_poll hdistinct, Bool.not_eq_true']
  constructor
  · intro hkept
    by_contra hnot
    rw [not_or, Bool.not_eq_true] at hnot
    have hmem : name ∈ a.goneFiles w := by
      rw [hgone, Watcher.find?_congr hname]
      exact ⟨⟨noted, hfind, by rw [Disk.digest?_of_not_exists hnot.1]; exact hnot.2⟩, hnot.1⟩
    have hother := hkept name hmem
    rw [Path.same_comm, hname] at hother
    cases hother
  · intro hreason gone hmem
    rw [hgone] at hmem
    obtain ⟨⟨noted', hfind', hdiffer⟩, hnone⟩ := hmem
    by_contra hsame
    rw [Bool.not_eq_false] at hsame
    rw [← Watcher.find?_congr hsame, hfind] at hfind'
    cases hfind'
    rcases hreason with hexists | rfl
    · rw [hnone] at hexists
      cases hexists
    · exact hdiffer (Disk.digest?_of_not_exists hnone).symm

end App

/-! ### Runs -/

/-- Where the open files come from: they were given on a disk, or a scan listed them. -/
inductive Origin where
  | given (d : Disk)
  | listed

/-- Whether a file existed when it was given. What a scan lists exists at that time. -/
def Origin.Existed (file : Path) : Origin → Prop
  | given d => d.exists? file = true
  | listed => True

instance (file : Path) (origin : Origin) : Decidable (origin.Existed file) :=
  match origin with
  | .given d => inferInstanceAs (Decidable (d.exists? file = true))
  | .listed => inferInstanceAs (Decidable True)

lemma ProjectIndex.exists_of_mem_scan {p : Project} {d : Discovery} {w : World} {file : Path}
    (h : file ∈ (scan p d w).files.map (·.path)) : w.disk.exists? file = true := by
  obtain ⟨indexed, hindexed, rfl⟩ := List.mem_map.mp h
  obtain ⟨path, hpath, hindex⟩ := List.mem_filterMap.mp hindexed
  have hsame : indexed.path = path := by
    unfold indexed? at hindex
    split at hindex
    · split at hindex
      · cases hindex
      · cases hindex
        rfl
    · cases hindex
  have hscanned : p.isScanned w.disk path = true := by
    rw [Project.sourceFiles, List.mem_mergeSort, List.mem_filter] at hpath
    exact hpath.2
  have hfile : w.disk.isFile path = true := by
    simp only [Project.isScanned, Bool.and_eq_true] at hscanned
    exact hscanned.1.1
  rw [hsame]
  exact Disk.exists_of_isFile hfile

/-- An application, with what happened to its watcher and where its open files come from. -/
structure Chronicle where
  app : App
  history : Watcher.History
  origin : Origin

namespace Chronicle

variable {t : Chronicle} {w : World}

def init (w : World) (config : Config) (project : Project) (openFiles : List Path) : Chronicle where
  app := .init w config project openFiles
  history := (openFiles.map Watcher.Event.watch).reverse.map (w.disk, ·)
  origin := .given w.disk

def handle (t : Chronicle) (w : World) (event : App.Event) : Chronicle where
  app := t.app.handle w event
  history := (t.app.watcherEvents w event).reverse.map (w.disk, ·) ++ t.history
  origin := match event with
    | .scanReports _ => if t.app.opensIndexed then .listed else t.origin
    | _ => t.origin

def run (t : Chronicle) (events : List (World × App.Event)) : Chronicle :=
  events.foldl (fun t step => t.handle step.1 step.2) t

/-- The history is that of the watcher, and the watched files are the open ones. -/
structure Sound (t : Chronicle) : Prop where
  history : t.app.watcher = .ofHistory t.history
  tidy : t.app.Tidy

lemma sound_init (w : World) (config : Config) (project : Project) (openFiles : List Path) :
    (init w config project openFiles).Sound := by
  refine ⟨?_, App.tidy_init w config project openFiles⟩
  have happend := Watcher.ofHistory_append w.disk (openFiles.map .watch) []
  rw [List.append_nil] at happend
  rw [init, happend, Watcher.handleAll, List.foldl_map]
  rfl

lemma Sound.handle (h : t.Sound) (w : World) (event : App.Event) : (t.handle w event).Sound := by
  refine ⟨?_, h.tidy.handle w event⟩
  simp only [Chronicle.handle]
  rw [App.watcher_handle, Watcher.ofHistory_append, h.history]

lemma Sound.run (h : t.Sound) (events : List (World × App.Event)) : (t.run events).Sound := by
  induction events generalizing t with
  | nil => exact h
  | cons step rest ih => exact ih (h.handle step.1 step.2)

/-- An open file was looked at, and the watcher knows what was found. -/
lemma Sound.exists_look (h : t.Sound) {file : Path} (hopen : file ∈ t.app.openFiles) :
    ∃ look, Watcher.look? file t.history = some look ∧
      t.app.watcher.find? file = some (look.name, look.disk.digest? look.readAs) := by
  have hwatched : t.app.watcher.isWatching file = true := by
    rw [h.tidy.watches file, List.any_eq_true]
    exact ⟨file, hopen, Path.same_iff.mpr rfl⟩
  rw [← Watcher.isSome_find?, h.history, Watcher.find?_ofHistory, Option.isSome_map] at hwatched
  obtain ⟨look, hlook⟩ := Option.isSome_iff_exists.mp hwatched
  exact ⟨look, hlook, by rw [h.history, Watcher.find?_ofHistory, hlook, Option.map_some]⟩

lemma Sound.mem_openFiles_iff (h : t.Sound) {milliseconds : Nat}
    (hpolls : t.app.polls milliseconds = true) {file : Path} :
    file ∈ (t.app.tick w milliseconds).openFiles ↔
      file ∈ t.app.openFiles ∧ ∃ look ∈ Watcher.look? file t.history,
        w.disk.exists? look.name = true ∨ look.contents? = none := by
  have hdistinct : t.app.watcher.Distinct := h.history ▸ Watcher.distinct_ofHistory t.history
  have hnothing (look : Watcher.Look) :
      look.disk.digest? look.readAs = none ↔ look.contents? = none := by
    rw [Disk.digest?_eq, Option.map_eq_none_iff, Watcher.Look.contents?]
  constructor
  · intro hmem
    have hopen : file ∈ t.app.openFiles := ((App.mem_openFiles_tick hpolls).mp hmem).1
    obtain ⟨look, hlook, hfind⟩ := h.exists_look hopen
    have hreason := ((App.mem_openFiles_tick_iff hpolls hdistinct hfind).mp hmem).2
    exact ⟨hopen, look, hlook, hreason.imp_right (hnothing look).mp⟩
  · rintro ⟨hopen, look, hlook, hreason⟩
    obtain ⟨look', hlook', hfind⟩ := h.exists_look hopen
    cases Option.mem_unique hlook hlook'
    exact (App.mem_openFiles_tick_iff hpolls hdistinct hfind).mpr
      ⟨hopen, hreason.imp_right (hnothing look).mpr⟩

/-- In every run, a look at the open files leaves those in the list whose watched name leads somewhere
and those that could not be read when they were last looked at. So a file that existed when it was
given or listed never stays in the list after it is gone, if and only if all of them could be read at
the latest look and are gone under the name that is watched. -/
theorem gone_file_stays_iff (w : World) (config : Config) (project : Project)
    (openFiles : List Path) (events : List (World × App.Event)) (now : World) (milliseconds : Nat) :
    let t := (init w config project openFiles).run events
    let after := (t.handle now (.tick milliseconds)).app
    t.app.polls milliseconds = true →
      (∀ file, file ∈ after.openFiles ↔
        file ∈ t.app.openFiles ∧ ∃ look ∈ Watcher.look? file t.history,
          now.disk.exists? look.name = true ∨ look.contents? = none) ∧
      ((∀ file ∈ after.openFiles, t.origin.Existed file → now.disk.exists? file = true) ↔
        ∀ file ∈ t.app.openFiles, t.origin.Existed file → now.disk.exists? file = false →
          ∃ look ∈ Watcher.look? file t.history,
            now.disk.exists? look.name = false ∧ look.contents?.isSome = true) ∧
      ∀ v, ∀ file ∈ (t.app.scan v).files.map (·.path), v.disk.exists? file = true := by
  intro t after hpolls
  have hsound : t.Sound := (sound_init w config project openFiles).run events
  have hkept (file : Path) : file ∈ after.openFiles ↔ file ∈ t.app.openFiles ∧
      ∃ look ∈ Watcher.look? file t.history,
        now.disk.exists? look.name = true ∨ look.contents? = none :=
    hsound.mem_openFiles_iff hpolls
  refine ⟨hkept, ⟨fun hall file hopen hexisted hgone => ?_, fun hall file hafter hexisted => ?_⟩,
    fun v file => ProjectIndex.exists_of_mem_scan⟩
  · obtain ⟨look, hlook, -⟩ := hsound.exists_look hopen
    have hclosed : file ∉ after.openFiles := fun hafter => by
      rw [hall file hafter hexisted] at hgone
      cases hgone
    have hnot : ¬(now.disk.exists? look.name = true ∨ look.contents? = none) := fun hreason =>
      hclosed ((hkept file).mpr ⟨hopen, look, hlook, hreason⟩)
    rw [not_or, Bool.not_eq_true, ← ne_eq, Option.ne_none_iff_isSome] at hnot
    exact ⟨look, hlook, hnot⟩
  · obtain ⟨hopen, look, hlook, hreason⟩ := (hkept file).mp hafter
    by_contra hgone
    rw [Bool.not_eq_true] at hgone
    obtain ⟨look', hlook', hname, hfound⟩ := hall file hopen hexisted hgone
    cases Option.mem_unique hlook hlook'
    rcases hreason with hthere | hnothing
    · rw [hname] at hthere
      cases hthere
    · rw [hnothing] at hfound
      cases hfound

/-- A file that is deleted after it was looked at is closed. -/
theorem read_gone_file_closed :
    let file : Path := ⟨"/p/A.kt"⟩
    let w := Explorer.oneFileWorld
    let now := w.withFiles [(["p"], .directory)]
    let t := (init w .standard Explorer.oneFileProject [file]).run [(w, .tick 1000)]
    t.app.polls 1000 = true ∧ t.origin.Existed file ∧ now.disk.exists? file = false ∧
      file ∉ (t.handle now (.tick 1000)).app.openFiles := by
  intro file w now t
  have hpolls : t.app.polls 1000 = true := by decide +kernel
  have hexisted : t.origin.Existed file := by decide +kernel
  have hgone : now.disk.exists? file = false := by decide +kernel
  obtain ⟨hkept, -⟩ := gone_file_stays_iff w .standard Explorer.oneFileProject [file]
    [(w, .tick 1000)] now 1000 hpolls
  refine ⟨hpolls, hexisted, hgone, fun hmem => ?_⟩
  obtain ⟨-, look, hlook, hreason⟩ := (hkept file).mp hmem
  have hevents : (init w .standard Explorer.oneFileProject [file]).app.watcherEvents w
      (.tick 1000) = [.poll] := by decide +kernel
  have hhistory : t.history = [(w.disk, .poll), (w.disk, .watch file)] := by
    simp only [t, run, List.foldl_cons, List.foldl_nil, handle, hevents]
    rfl
  have hlook' : Watcher.look? file t.history = some ⟨file, file, w.disk⟩ := by
    rw [hhistory]
    simp [Watcher.look?, Path.same]
  cases Option.mem_unique hlook hlook'
  rcases hreason with hthere | hnothing
  · rw [hgone] at hthere
    cases hthere
  · have hread : w.disk.contents? file = some [] := by decide +kernel
    rw [Watcher.Look.contents?, hread] at hnothing
    cases hnothing

/-- A spec without tests. -/
def bareSpec : Source where
  chars := "object S : io.kotest.core.spec.style.FunSpec()".toList
  root := .rule "source_file" 0 46 [
    .rule "object_declaration" 0 46 [
      .fixed "object" 0,
      .title 7 8,
      .fixed ":" 9,
      .rule "delegation_specifiers" 11 46 [
        .rule "delegation_specifier" 11 46 [
          .rule "constructor_invocation" 11 46 [
            .rule "user_type" 11 44 [
              .identifier 11 13, .fixed "." 13, .identifier 14 20, .fixed "." 20,
              .identifier 21 25, .fixed "." 25, .identifier 26 30, .fixed "." 30,
              .identifier 31 36, .fixed "." 36, .identifier 37 44],
            .rule "value_arguments" 44 46 [.fixed "(" 44, .fixed ")" 45]]]]]]

/-- A project with one spec. -/
def bareSpecWorld : World where
  disk := ⟨[(["p"], .directory), (["p", "A.kt"], .file (Text.toBytes bareSpec.chars))], []⟩
  environment := []
  grammar _ := bareSpec.root

/-- Two files that are gone stay in the list: one was a directory for a while, at the time when it was
looked at, and the other was deleted between the scan that listed it and its report. -/
theorem unread_gone_file_stays :
    let file : Path := ⟨"/p/A.kt"⟩
    let w := bareSpecWorld
    let now := w.withFiles [(["p"], .directory)]
    let replaced := (init w .standard Explorer.oneFileProject [file]).run
      [(w.withFiles [(["p"], .directory), (["p", "A.kt"], .directory)], .tick 1000)]
    let idle := init w .standard Explorer.oneFileProject []
    let scanned := idle.run [(w, .startScan), (now, .scanReports (idle.app.scan w))]
    now.disk.exists? file = false ∧
      (replaced.origin.Existed file ∧ replaced.app.polls 1000 = true ∧
        file ∈ (replaced.handle now (.tick 1000)).app.openFiles) ∧
      scanned.origin.Existed file ∧ scanned.app.polls 1000 = true ∧
        file ∈ (scanned.handle now (.tick 1000)).app.openFiles := by
  decide +kernel

end Chronicle

end SpecLens
