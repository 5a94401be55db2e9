import SpecLens.Explorer.Basic
import SpecLens.Project.Index
import SpecLens.Project.Watcher

/-!
# The interactive application

The state of the application and its answers to keys, ticks of the clock and the end of the
project scan.
-/

namespace SpecLens

/-- The pane that receives the keys. -/
inductive Focus where
  | files
  | outline
deriving DecidableEq, Repr, Inhabited

def Focus.other : Focus → Focus
  | files => outline
  | outline => files

/-- The keys the application knows. -/
inductive Key where
  | char (c : Char)
  | enter
  | escape
  | tab
  | up
  | down
  | unknown
deriving DecidableEq, Repr, Inhabited

/-- The state of the application. -/
structure App where
  explorer : Explorer
  openFiles : List Path
  /-- The index of a file among the open ones. -/
  fileCursor : Nat
  focus : Focus
  lastRequest : Option (RunRequest × Invocation)
  status : Option String
  quit : Bool
  config : Config
  watcher : Watcher
  /-- Milliseconds since the open files were last looked at. -/
  sincePoll : Nat
  /-- A scan of the project is under way. -/
  scanning : Bool
deriving Inhabited

namespace App

def init (w : World) (config : Config) (project : Project) (openFiles : List Path) : App where
  explorer := .init project (.ofConfig config.discovery) config.explorer
  openFiles
  fileCursor := 0
  focus := .outline
  lastRequest := none
  status := none
  quit := false
  config
  watcher := openFiles.foldl (fun watcher file => watcher.watch w.disk file) .empty
  sincePoll := 0
  scanning := false

/-- Selects an open file. -/
def selectFile (a : App) (w : World) (index : Nat) : App :=
  match a.openFiles[index]? with
  | some file =>
    { a with fileCursor := index, explorer := a.explorer.select w (some file) }
  | none => a

/-- Starts a scan of the project. -/
def startScan (a : App) : App :=
  { a with
    explorer := a.explorer.beginIndexing
    status := some "Indexing project..."
    scanning := true }

/-- The status that a scan ends with. -/
def scanSummary (i : ProjectIndex) : String :=
  "Indexed " ++ toString i.scanned ++ " files: " ++ toString i.specCount ++ " specs, " ++
    toString i.testCount ++ " tests"

/-- Opens the files of an index if none are open. -/
def openIndexed (a : App) (w : World) (i : ProjectIndex) : App :=
  if a.openFiles.isEmpty then
    let files := i.files.map (·.path)
    let watcher := files.foldl
      (fun watcher file =>
        if watcher.isWatching file then watcher else watcher.watch w.disk file)
      a.watcher
    selectFile { a with openFiles := files, watcher } w 0
  else a

/-- Takes in the result of a scan. -/
def scanFinished (a : App) (w : World) (i : ProjectIndex) : App :=
  let a := { a with status := some (scanSummary i) }.openIndexed w i
  { a with explorer := a.explorer.indexingFinished w }

/-- The index of the project as the disk is now. -/
def scan (a : App) (w : World) : ProjectIndex :=
  .scan a.explorer.project (.ofConfig a.config.discovery) w

/-- The scan that is under way reports its result. -/
def scanArrives (a : App) (w : World) : App :=
  if a.scanning then { a with scanning := false }.scanFinished w (a.scan w) else a

/-- Closes a file that is gone. -/
def close (a : App) (file : Path) : App :=
  { a with
    watcher := a.watcher.unwatch file
    openFiles := a.openFiles.filter fun f => !f.same file }

/-- Takes note of changed files. Those that are gone are closed. -/
def filesChanged (a : App) (w : World) (changed : List Path) : App :=
  let a := (changed.filter fun file => !w.disk.exists? file).foldl close a
  { a with
    fileCursor := min a.fileCursor (a.openFiles.length - 1)
    explorer := a.explorer.filesChanged w changed }

/-- Time passes. Every so often the open files are looked at. -/
def tick (a : App) (w : World) (milliseconds : Nat) : App :=
  let since := a.sincePoll + milliseconds
  if since < a.config.explorer.pollInterval then { a with sincePoll := since }
  else
    let (changed, watcher) := a.watcher.poll w.disk
    let a := { a with sincePoll := 0, watcher }
    if changed.isEmpty then a else a.filesChanged w changed

def moveDown (a : App) : App :=
  match a.focus with
  | .files =>
    if a.fileCursor + 1 < a.openFiles.length then { a with fileCursor := a.fileCursor + 1 } else a
  | .outline => { a with explorer := a.explorer.mapOutline .selectNext }

def moveUp (a : App) : App :=
  match a.focus with
  | .files => { a with fileCursor := a.fileCursor - 1 }
  | .outline => { a with explorer := a.explorer.mapOutline .selectPrevious }

/-- Opens the file under the cursor, or toggles the selected row. -/
def activate (a : App) (w : World) : App :=
  match a.focus with
  | .files => a.selectFile w a.fileCursor
  | .outline => { a with explorer := a.explorer.mapOutline .toggleSelected }

/-- Runs the selected row. -/
def runSelected (a : App) (mode : RunMode) : App :=
  match a.explorer.runSelected mode with
  | some r =>
    { a with
      status := some (mode.name ++ ": " ++ r.name)
      lastRequest := some (r, r.invocation a.config.run) }
  | none =>
    { a with status := some ("Select a spec or test to " ++ mode.name.toLower) }

/-- Answers a key. -/
def press (a : App) (w : World) (key : Key) (control : Bool) : App :=
  match key with
  | .escape => { a with quit := true }
  | .tab => { a with focus := a.focus.other }
  | .down => a.moveDown
  | .up => a.moveUp
  | .enter => a.activate w
  | .unknown => a
  | .char c =>
    match c with
    | 'q' => { a with quit := true }
    | 'c' => if control then { a with quit := true } else a.runSelected .coverage
    | 'j' => a.moveDown
    | 'k' => a.moveUp
    | ' ' => a.activate w
    | 'r' => a.runSelected .run
    | 'd' => a.runSelected .debug
    | 'e' => { a with explorer := a.explorer.mapOutline .expandAll }
    | 'x' => { a with explorer := a.explorer.mapOutline .collapseAll }
    | 'R' => { a with explorer := a.explorer.refresh w, status := some "Refreshed" }
    | _ => a

/-- The label of the open file with the given index, empty if there is none. -/
def fileLabel (a : App) (index : Nat) : String :=
  match a.openFiles[index]? with
  | some file => ((file.relativeTo? a.explorer.project.root).getD file).text
  | none => ""

end App

end SpecLens
