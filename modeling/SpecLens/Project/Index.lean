import SpecLens.Project.Basic

/-!
# The project index

A scan loads every source file of a project. Files that cannot be loaded and files without specs
are left out.
-/

namespace SpecLens

/-- A source file with at least one spec. The module is empty if the file is in none. -/
structure IndexedFile where
  path : Path
  relativePath : String
  module : String
  specs : List Spec
deriving Inhabited

/-- The result of a scan. -/
structure ProjectIndex where
  scanned : Nat
  files : List IndexedFile
deriving Inhabited

namespace ProjectIndex

/-- The entry of a source file. -/
def indexed? (p : Project) (d : Discovery) (w : World) (path : Path) : Option IndexedFile :=
  match d.specsOfFile w path with
  | .ok specs =>
    if specs.isEmpty then none
    else some {
      path
      relativePath := ((path.relativeTo? p.root).getD path).text
      module := ((p.moduleOf? w.disk path).map (·.name)).getD ""
      specs }
  | .error _ => none

/-- Scans a project. -/
def scan (p : Project) (d : Discovery) (w : World) : ProjectIndex :=
  let files := p.sourceFiles w
  ⟨files.length, files.filterMap (indexed? p d w)⟩

def specCount (i : ProjectIndex) : Nat := (i.files.flatMap (·.specs)).length

def testCount (i : ProjectIndex) : Nat :=
  ((i.files.flatMap (·.specs)).flatMap Spec.allTests).length

/-- Puts a file into the first group of its module, or into a new one at the end. -/
def place : List (String × List IndexedFile) → IndexedFile → List (String × List IndexedFile)
  | [], e => [(e.module, [e])]
  | group :: groups, e =>
    if group.1 = e.module then (group.1, group.2 ++ [e]) :: groups else group :: place groups e

/-- The groups of some files that are placed one by one. -/
def placeAll (files : List IndexedFile) : List (String × List IndexedFile) := files.foldl place []

/-- The files of each module, the modules by name. -/
def byModule (i : ProjectIndex) : List (String × List IndexedFile) :=
  (placeAll i.files).mergeSort fun a b => decide (a.1 ≤ b.1)

end ProjectIndex

end SpecLens
