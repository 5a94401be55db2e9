import SpecLens.Project.Watcher
import SpecLens.Proofs.Disk.PathOrder

/-!
# Which files are watched

Paths that have the same components name the same file, to a watcher as to a list of open files.
-/

namespace SpecLens

/-- Without one file, a list of paths names the same other files. -/
lemma Path.any_same_filter (paths : List Path) (p q : Path) :
    ((paths.filter fun f => !f.same p).any (·.same q)) = (paths.any (·.same q) && !q.same p) := by
  rw [Bool.eq_iff_iff]
  simp only [List.any_eq_true, List.mem_filter, Bool.not_eq_true', Bool.and_eq_true,
    ← Bool.not_eq_true, Path.same_iff]
  constructor
  · rintro ⟨f, ⟨hmem, hp⟩, hq⟩
    exact ⟨⟨f, hmem, hq⟩, hq ▸ hp⟩
  · rintro ⟨⟨f, hmem, hq⟩, hp⟩
    exact ⟨f, ⟨hmem, hq ▸ hp⟩, hq⟩

namespace Watcher

variable {w : Watcher} {p : Path}

/-- The watched files. -/
def paths (w : Watcher) : List Path := w.watched.map (·.1)

lemma isWatching_eq (w : Watcher) (q : Path) : w.isWatching q = w.paths.any (·.same q) := by
  rw [isWatching, paths, List.any_map]
  rfl

/-- A watched file is watched under all its names. -/
lemma isWatching_or_same (h : w.isWatching p = true) (q : Path) :
    (w.isWatching q || p.same q) = w.isWatching q := by
  cases hsame : p.same q with
  | false => rw [Bool.or_false]
  | true =>
    obtain ⟨entry, hmem, hentry⟩ := List.any_eq_true.mp h
    have hentrySame : entry.1.same q = true :=
      Path.same_iff.mpr ((Path.same_iff.mp hentry).trans (Path.same_iff.mp hsame))
    have hwatching : w.isWatching q = true := List.any_eq_true.mpr ⟨entry, hmem, hentrySame⟩
    rw [hwatching, Bool.true_or]

lemma isWatching_watch (w : Watcher) (d : Disk) (p q : Path) :
    (w.watch d p).isWatching q = (w.isWatching q || p.same q) := by
  unfold watch
  split
  case isTrue hwatching =>
    have hpaths : (⟨w.watched.map fun e => if e.1.same p then (e.1, d.digest? p) else e⟩ :
        Watcher).paths = w.paths := by
      simp only [paths, List.map_map]
      refine List.map_congr_left fun e _ => ?_
      simp only [Function.comp_apply]
      split <;> rfl
    rw [isWatching_eq, hpaths, ← isWatching_eq, isWatching_or_same hwatching]
  case isFalse => simp [isWatching]

lemma isWatching_unwatch (w : Watcher) (p q : Path) :
    (w.unwatch p).isWatching q = (w.isWatching q && !q.same p) := by
  rw [isWatching_eq, isWatching_eq, ← Path.any_same_filter, paths, unwatch, paths, List.filter_map]
  rfl

lemma isWatching_poll (w : Watcher) (d : Disk) (q : Path) :
    (w.poll d).2.isWatching q = w.isWatching q := by
  simp [isWatching, poll, Function.comp_def]

lemma isWatching_foldl {add : Watcher → Path → Watcher}
    (hadd : ∀ w p q, (add w p).isWatching q = (w.isWatching q || p.same q))
    (files : List Path) (w : Watcher) (q : Path) :
    (files.foldl add w).isWatching q = (w.isWatching q || files.any (·.same q)) := by
  induction files generalizing w with
  | nil => simp
  | cons file rest ih => rw [List.foldl_cons, ih, hadd, List.any_cons, Bool.or_assoc]

end Watcher

end SpecLens
