import SpecLens.Digest.Sha256
import SpecLens.Disk.Basic

/-!
# Watching files

A watcher keeps a digest of each watched file and reports the files whose digest differs since it
last looked.
-/

namespace SpecLens

/-- The watched files with the digests of their contents, none for those that cannot be read. -/
structure Watcher where
  watched : List (Path × Option String)
deriving Inhabited

/-- The digest of a file's contents. -/
def Disk.digest? (d : Disk) (p : Path) : Option String :=
  match d.read p with
  | .ok contents => some (Sha256.digest contents)
  | .error _ => none

namespace Watcher

def empty : Watcher := ⟨[]⟩

def isWatching (w : Watcher) (p : Path) : Bool := w.watched.any (·.1.same p)

/-- Starts to watch a file, or takes note of its present contents. -/
def watch (w : Watcher) (d : Disk) (p : Path) : Watcher :=
  if w.isWatching p then
    ⟨w.watched.map fun e => if e.1.same p then (e.1, d.digest? p) else e⟩
  else ⟨w.watched ++ [(p, d.digest? p)]⟩

def unwatch (w : Watcher) (p : Path) : Watcher := ⟨w.watched.filter fun e => !e.1.same p⟩

/-- The watched files that changed, appeared or vanished, in order, and the watcher that took note
of it. -/
def poll (w : Watcher) (d : Disk) : List Path × Watcher :=
  let changed := w.watched.filter fun e => e.2 != d.digest? e.1
  ((changed.map (·.1)).mergeSort Path.le, ⟨w.watched.map fun e => (e.1, d.digest? e.1)⟩)

end Watcher

end SpecLens
