import SpecLens.Disk.Walk
import SpecLens.Spec.Load

/-!
# Projects

A project is a directory with the modules in it: the directories that hold a build file, or the
project itself where there is none.
-/

namespace SpecLens

/-- A module. Its name is its path from the project, or the name of the project itself. -/
structure Module where
  name : String
  root : Path
deriving DecidableEq, Repr, Inhabited

/-- A project. Its root is the path without detours. -/
structure Project where
  root : Path
  modules : List Module
  config : DiscoveryConfig
deriving Inhabited

namespace Module

/-- The module rooted at a directory of a project. -/
def rootedAt (project root : Path) : Module where
  name :=
    match root.relativeTo? project with
    | some below =>
      if below.text.isEmpty then project.fileName?.getD project.text
      else String.ofList (below.text.toList.map fun c => if c = '\\' then '/' else c)
    | none => project.fileName?.getD project.text
  root

/-- Whether a directory holds one of the build files. -/
def isMarked (d : Disk) (markers : List String) (root : Path) : Bool :=
  markers.any fun m => d.isFile (root.join ⟨m⟩)

/-- The number of components of a module's root. -/
def depth (m : Module) : Nat := m.root.components.length

/-- The last of the deepest modules. -/
def deepest? : List Module → Option Module :=
  List.foldl
    (fun best m => match best with
      | some b => if b.depth ≤ m.depth then some m else some b
      | none => some m)
    none

end Module

namespace Project

/-- Opens the project at a directory. -/
def load (w : World) (config : DiscoveryConfig) (path : Path) : Except LoadError Project := do
  let names ← (w.disk.resolve path).mapError (.io path)
  let root := Path.ofNames names
  let directories := ((w.disk.walk w.environment config.excludeDirs names).map Path.ofNames).filter
    w.disk.isDirectory
  let found :=
    (directories.filter (Module.isMarked w.disk config.moduleMarkers)).map (.rootedAt root)
  let modules := if found.isEmpty then [.rootedAt root root] else found
  .ok ⟨root, modules.mergeSort fun a b => a.root.le b.root, config⟩

/-- The innermost module that contains a file. -/
def moduleOf? (p : Project) (d : Disk) (path : Path) : Option Module :=
  match d.canonical path with
  | .ok path => Module.deepest? (p.modules.filter fun m => path.startsWith m.root)
  | .error _ => none

/-- Whether a path is a source file within the size limit. -/
def isScanned (p : Project) (d : Disk) (path : Path) : Bool :=
  d.isFile path && p.config.isSource path &&
    match d.size path with
    | .ok size => size ≤ p.config.maxFileSize
    | .error _ => false

/-- The source files of a project, in order. -/
def sourceFiles (p : Project) (w : World) : List Path :=
  let names := match w.disk.follow p.root with
    | .ok names => w.disk.walk w.environment p.config.excludeDirs names
    | .error _ => []
  ((names.map Path.ofNames).filter (p.isScanned w.disk)).mergeSort Path.le

end Project

end SpecLens
