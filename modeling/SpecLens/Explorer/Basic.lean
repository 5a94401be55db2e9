import SpecLens.Explorer.Outline
import SpecLens.Project.Basic
import SpecLens.Run.Request

/-!
# The explorer

The explorer shows the specs of the selected file. A new selection and changes on the disk rebuild
its outline, at once or, while the project is indexing, when that has finished: tasks that are
submitted meanwhile wait in a queue.
-/

namespace SpecLens

/-- Holds tasks back while indexing is in progress. -/
structure Gate (α : Type) where
  indexing : Bool
  queue : List α
deriving DecidableEq, Repr, Inhabited

namespace Gate

variable {α : Type}

/-- Not indexing, and nothing waits. -/
def idle : Gate α := ⟨false, []⟩

def start (g : Gate α) : Gate α := { g with indexing := true }

/-- Ends indexing and hands out what waited, oldest first. -/
def finish (g : Gate α) : List α × Gate α := (g.queue, idle)

/-- Hands a task straight back unless indexing is in progress; then it waits. -/
def submit (g : Gate α) (task : α) : Option α × Gate α :=
  if g.indexing then (none, { g with queue := g.queue ++ [task] }) else (some task, g)

/-- The number of waiting tasks. -/
def pending (g : Gate α) : Nat := g.queue.length

end Gate

/-- The state of the explorer. -/
structure Explorer where
  project : Project
  discovery : Discovery
  gate : Gate Path
  selectedFile : Option Path
  outline : Outline
  /-- Outlines are expanded when they are built. -/
  startsExpanded : Bool
deriving Inhabited

namespace Explorer

def init (project : Project) (discovery : Discovery) (config : ExplorerConfig) : Explorer :=
  ⟨project, discovery, .idle, none, .empty, config.expandAll⟩

/-- The outline of a file: empty if the file is in no module or cannot be loaded. -/
def outlineOf (e : Explorer) (w : World) (file : Path) : Outline :=
  match e.project.moduleOf? w.disk file with
  | none => .empty
  | some m =>
    let outline := match e.discovery.specsOfFile w file with
      | .ok specs => Outline.build file m.name specs
      | .error _ => .empty
    if e.startsExpanded then outline.expandAll else outline.collapseAll

/-- Shows the outline of a file. -/
def render (e : Explorer) (w : World) (file : Path) : Explorer :=
  { e with outline := e.outlineOf w file }

/-- Rebuilds the outline for the selected file. -/
def refresh (e : Explorer) (w : World) : Explorer :=
  match e.selectedFile with
  | none => { e with outline := .empty }
  | some file =>
    if (e.project.moduleOf? w.disk file).isNone then { e with outline := .empty }
    else
      let (ready, gate) := e.gate.submit file
      let e := { e with gate }
      match ready with
      | some file => e.render w file
      | none => e

/-- Selects another file, or none. -/
def select (e : Explorer) (w : World) (file : Option Path) : Explorer :=
  refresh { e with selectedFile := file } w

/-- Takes note of changed files: those with the name of the selected file rebuild the
outline. -/
def filesChanged (e : Explorer) (w : World) (changed : List Path) : Explorer :=
  match e.selectedFile with
  | none => e
  | some file => if changed.any (·.fileName? == file.fileName?) then e.refresh w else e

def beginIndexing (e : Explorer) : Explorer := { e with gate := e.gate.start }

/-- Ends indexing and runs every refresh that waited, in order. -/
def indexingFinished (e : Explorer) (w : World) : Explorer :=
  let (waiting, gate) := e.gate.finish
  waiting.foldl (fun e file => e.render w file) { e with gate }

/-- Changes the outline. -/
def mapOutline (e : Explorer) (f : Outline → Outline) : Explorer :=
  { e with outline := f e.outline }

/-- The request to run the selected row. Only specs and tests can be run. -/
def runSelected (e : Explorer) (mode : RunMode) : Option RunRequest :=
  e.outline.selectedRow?.bind fun row =>
    match row.item with
    | .spec _ fqn _ anchor => some (.forSpec mode e.selectedFile fqn anchor.line)
    | .test specFqn test => some (.forTest mode e.selectedFile specFqn test)
    | _ => none

end Explorer

end SpecLens
