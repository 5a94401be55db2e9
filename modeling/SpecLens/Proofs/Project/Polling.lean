import SpecLens.Proofs.Disk.Reading
import SpecLens.Proofs.Project.Watcher

/-!
# What a poll reports

A history tells with each event what the disk was like. A poll reports the files whose contents are
not what they were when the file was last looked at. A file can be looked at under another name than
the one it is watched under, if the two have the same components; only then the report can be wrong.
-/

namespace SpecLens.Watcher

/-- What happens to a watcher. -/
inductive Event where
  | watch (p : Path)
  | unwatch (p : Path)
  | poll
deriving DecidableEq, Repr

def handle (w : Watcher) (d : Disk) : Event → Watcher
  | .watch p => w.watch d p
  | .unwatch p => w.unwatch p
  | .poll => (w.poll d).2

/-- What happened to a watcher, the latest event first, each with the disk as it was. -/
abbrev History := List (Disk × Event)

/-- A watcher of nothing after a history. -/
def ofHistory : History → Watcher
  | [] => .empty
  | (d, event) :: earlier => (ofHistory earlier).handle d event

/-- How a file was last looked at. -/
structure Look where
  /-- The name that the file is watched under. -/
  name : Path
  /-- The name that it was read under. -/
  readAs : Path
  disk : Disk

/-- What a look found. -/
def Look.contents? (l : Look) : Option (List UInt8) := l.disk.contents? l.readAs

/-- The latest look at a file since it is watched: a call to watch it or a poll. -/
def look? (p : Path) : History → Option Look
  | [] => none
  | (d, .watch q) :: earlier =>
    if q.same p then some ⟨((look? p earlier).map (·.name)).getD q, q, d⟩ else look? p earlier
  | (_, .unwatch q) :: earlier => if q.same p then none else look? p earlier
  | (d, .poll) :: earlier => (look? p earlier).map fun l => ⟨l.name, l.name, d⟩

/-- The name that a file is watched under and the digest that was noted. -/
def find? (w : Watcher) (p : Path) : Option (Path × Option String) :=
  w.watched.find? (·.1.same p)

variable {w : Watcher} {d : Disk} {p q : Path} {history : History}

lemma find?_congr (h : p.same q = true) : w.find? p = w.find? q := by
  have hsame : (fun e : Path × Option String => e.1.same p) = (·.1.same q) := by
    funext e
    rw [Path.same, Path.same, Path.same_iff.mp h]
  rw [find?, hsame, find?]

lemma isSome_find? (w : Watcher) (p : Path) : (w.find? p).isSome = w.isWatching p := by
  rw [isWatching, find?, List.isSome_find?]

lemma same_of_find? {entry : Path × Option String} (h : w.find? p = some entry) :
    entry.1.same p = true := by
  simpa using List.find?_some h

lemma find?_watch (w : Watcher) (d : Disk) (p q : Path) :
    (w.watch d p).find? q =
      if p.same q then some (((w.find? q).map (·.1)).getD p, d.digest? p) else w.find? q := by
  unfold watch
  split
  case isTrue hwatching =>
    have hnames : ((·.1.same q) ∘ fun e : Path × Option String =>
        if e.1.same p then (e.1, d.digest? p) else e) = (·.1.same q) := by
      funext e
      simp only [Function.comp_apply]
      split <;> rfl
    rw [find?, List.find?_map, hnames, ← find?]
    split
    case isTrue hsame =>
      rw [← isSome_find?, find?_congr hsame] at hwatching
      obtain ⟨entry, hentry⟩ := Option.isSome_iff_exists.mp hwatching
      have hentrySame : entry.1.same p = true :=
        Path.same_iff.mpr ((Path.same_iff.mp (same_of_find? hentry)).trans
          (Path.same_iff.mp hsame).symm)
      simp [hentry, hentrySame]
    case isFalse hother =>
      cases hentry : w.find? q with
      | none => rfl
      | some entry =>
        have hentryOther : entry.1.same p ≠ true := fun hentrySame =>
          hother (Path.same_iff.mpr ((Path.same_iff.mp hentrySame).symm.trans
            (Path.same_iff.mp (same_of_find? hentry))))
        simp [hentryOther]
  case isFalse hnot =>
    rw [find?, List.find?_append, ← find?]
    split
    case isTrue hsame =>
      rw [← isSome_find?, find?_congr hsame] at hnot
      simp [Option.not_isSome_iff_eq_none.mp hnot, hsame]
    case isFalse hother => simp [hother]

lemma find?_unwatch (w : Watcher) (p q : Path) :
    (w.unwatch p).find? q = if p.same q then none else w.find? q := by
  rw [unwatch, find?, List.find?_filter]
  split
  case isTrue hsame =>
    rw [List.find?_eq_none]
    intro e _
    simp [Path.same, Path.same_iff.mp hsame]
  case isFalse hother =>
    rw [find?]
    congr 1
    funext e
    rw [Bool.eq_iff_iff]
    simp only [decide_eq_true_eq, Bool.not_eq_true', ← Bool.not_eq_true, Path.same_iff] at hother ⊢
    constructor
    · exact And.right
    · exact fun h => ⟨fun hp => hother (hp.symm.trans h), h⟩

lemma find?_poll (w : Watcher) (d : Disk) (q : Path) :
    (w.poll d).2.find? q = (w.find? q).map fun e => (e.1, d.digest? e.1) := by
  rw [poll, find?, List.find?_map]
  rfl

/-- What a watcher knows of a file is what the latest look at it found. -/
lemma find?_ofHistory (history : History) (p : Path) :
    (ofHistory history).find? p =
      (look? p history).map fun l => (l.name, l.disk.digest? l.readAs) := by
  induction history with
  | nil => rfl
  | cons step earlier ih =>
    obtain ⟨d, event⟩ := step
    cases event with
    | watch q =>
      rw [ofHistory, handle, find?_watch, ih, look?]
      split <;> simp [Function.comp_def]
    | unwatch q =>
      rw [ofHistory, handle, find?_unwatch, ih, look?]
      split <;> rfl
    | poll =>
      rw [ofHistory, handle, find?_poll, ih, look?]
      simp [Function.comp_def]

def Distinct (w : Watcher) : Prop := w.watched.Pairwise fun e f => e.1.same f.1 = false

lemma Distinct.watch (h : w.Distinct) (d : Disk) (p : Path) : (w.watch d p).Distinct := by
  unfold Watcher.watch
  split
  case isTrue =>
    refine List.pairwise_map.mpr (h.imp fun {e f} hef => ?_)
    split <;> split <;> exact hef
  case isFalse hnot =>
    refine List.pairwise_append.mpr ⟨h, List.pairwise_singleton _ _, fun e he f hf => ?_⟩
    rw [List.mem_singleton.mp hf]
    simp only [isWatching, List.any_eq_true, not_exists, not_and, Bool.not_eq_true] at hnot
    exact hnot e he

lemma Distinct.handle (h : w.Distinct) (d : Disk) (event : Event) :
    (w.handle d event).Distinct := by
  cases event with
  | watch p => exact h.watch d p
  | unwatch p => exact h.filter _
  | poll => exact List.pairwise_map.mpr h

lemma distinct_ofHistory (history : History) : (ofHistory history).Distinct := by
  induction history with
  | nil => exact List.Pairwise.nil
  | cons step earlier ih => exact ih.handle step.1 step.2

lemma Distinct.mem_iff (h : w.Distinct) {noted : Option String} :
    (p, noted) ∈ w.watched ↔ w.find? p = some (p, noted) := by
  constructor
  · intro hmem
    obtain ⟨before, after, heq⟩ := List.append_of_mem hmem
    rw [find?, List.find?_eq_some_iff_append]
    refine ⟨Path.same_iff.mpr rfl, before, after, heq, fun e he => ?_⟩
    rw [Distinct, heq, List.pairwise_append] at h
    simp [h.2.2 e he (p, noted) List.mem_cons_self]
  · exact List.mem_of_find?_eq_some

lemma poll_before (h : w.Distinct) (d : Disk) : (w.poll d).1.Pairwise Path.Before := by
  apply Path.mergeSort_before
  exact List.pairwise_map.mpr (h.filter _)

/-- The order in which the files are kept does not matter. -/
lemma poll_perm (h : w.Distinct) {watched : List (Path × Option String)}
    (hperm : watched.Perm w.watched) (d : Disk) : (poll ⟨watched⟩ d).1 = (w.poll d).1 := by
  have hdistinct : Distinct ⟨watched⟩ := by
    refine (hperm.pairwise_iff fun {e f} hef => ?_).mpr h
    rw [Path.same_comm, hef]
  refine List.Perm.eq_of_pairwise (fun p q _ _ hpq hqp => absurd hqp hpq.asymm)
    (poll_before hdistinct d) (poll_before h d) ?_
  calc (poll ⟨watched⟩ d).1.Perm _ := List.mergeSort_perm _ _
    List.Perm _ _ := (hperm.filter _).map _
    List.Perm _ (w.poll d).1 := (List.mergeSort_perm _ _).symm

lemma mem_poll (h : w.Distinct) :
    p ∈ (w.poll d).1 ↔ ∃ noted, w.find? p = some (p, noted) ∧ noted ≠ d.digest? p := by
  rw [poll, List.mem_mergeSort, List.mem_map]
  constructor
  · rintro ⟨⟨p, noted⟩, hmem, rfl⟩
    obtain ⟨hwatched, hdiffer⟩ := List.mem_filter.mp hmem
    exact ⟨noted, h.mem_iff.mp hwatched, by simpa using hdiffer⟩
  · rintro ⟨noted, hfind, hdiffer⟩
    exact ⟨(p, noted), List.mem_filter.mpr ⟨h.mem_iff.mpr hfind, by simpa using hdiffer⟩, rfl⟩

lemma disk_of_look? {look : Look} (h : look? p history = some look) :
    look.disk ∈ history.map (·.1) := by
  induction history generalizing look with
  | nil => cases h
  | cons step earlier ih =>
    obtain ⟨d, event⟩ := step
    cases event with
    | watch q =>
      rw [look?] at h
      split at h
      · cases h
        exact List.mem_cons_self
      · exact List.mem_cons_of_mem _ (ih h)
    | unwatch q =>
      rw [look?] at h
      split at h
      · cases h
      · exact List.mem_cons_of_mem _ (ih h)
    | poll =>
      obtain ⟨l, -, rfl⟩ := Option.map_eq_some_iff.mp h
      exact List.mem_cons_self

lemma mem_poll_ofHistory {now : Disk}
    (hdigests : DigestsDiffer (now.entries :: history.map (·.1.entries))) :
    p ∈ ((ofHistory history).poll now).1 ↔
      ∃ look ∈ look? p history, look.name = p ∧ now.contents? p ≠ look.contents? := by
  have hdigest {look : Look} (hlook : look? p history = some look) :
      look.disk.digest? look.readAs = now.digest? p ↔ now.contents? p = look.contents? := by
    have hmem : look.disk.entries ∈ now.entries :: history.map (·.1.entries) := by
      obtain ⟨step, hstep, hdisk⟩ := List.mem_map.mp (disk_of_look? hlook)
      exact List.mem_cons_of_mem _ (List.mem_map.mpr ⟨step, hstep, congrArg _ hdisk⟩)
    constructor
    · exact fun h => (Disk.contents?_eq_of_digest? hdigests hmem List.mem_cons_self h).symm
    · intro h
      rw [Disk.digest?_eq, Disk.digest?_eq, h, Look.contents?]
  rw [mem_poll (distinct_ofHistory history)]
  simp only [find?_ofHistory, Option.map_eq_some_iff, Prod.mk.injEq, Option.mem_def]
  constructor
  · rintro ⟨noted, ⟨look, hlook, hname, rfl⟩, hdiffer⟩
    exact ⟨look, hlook, hname, fun h => hdiffer ((hdigest hlook).mpr h)⟩
  · rintro ⟨look, hlook, hname, hdiffer⟩
    exact ⟨_, ⟨look, hlook, hname, rfl⟩, fun h => hdiffer ((hdigest hlook).mp h)⟩

/-- A poll reports, in strict order whatever the order of the watched files, each file whose contents
are not what the latest look at it found. So right after another poll it reports nothing unless a file
changed. It reports exactly the files that differ from what they themselves were at the latest look,
if and only if no file that was last read under another name, with another result, has one of these
two contents now. -/
theorem poll_reports_changed (history : History) (now : Disk)
    (hdigests : DigestsDiffer (now.entries :: history.map (·.1.entries))) :
    let changed := ((ofHistory history).poll now).1
    (changed.Pairwise Path.Before ∧
      ∀ watched, watched.Perm (ofHistory history).watched → (poll ⟨watched⟩ now).1 = changed) ∧
    (∀ p, p ∈ changed ↔
      ∃ look ∈ look? p history, look.name = p ∧ now.contents? p ≠ look.contents?) ∧
    (∀ d earlier, history = (d, .poll) :: earlier → (∀ p, now.contents? p = d.contents? p) →
      changed = []) ∧
    ((∀ p, ∀ look ∈ look? p history, look.name = p →
        (p ∈ changed ↔ now.contents? p ≠ look.disk.contents? p)) ↔
      ∀ p, ∀ look ∈ look? p history, look.name = p → look.contents? ≠ look.disk.contents? p →
        now.contents? p ≠ look.contents? ∧ now.contents? p ≠ look.disk.contents? p) := by
  intro changed
  have hdistinct := distinct_ofHistory history
  have hreported (p : Path) : p ∈ changed ↔
      ∃ look ∈ look? p history, look.name = p ∧ now.contents? p ≠ look.contents? :=
    mem_poll_ofHistory hdigests
  refine ⟨⟨poll_before hdistinct now, fun watched hperm => poll_perm hdistinct hperm now⟩,
    hreported, ?_, ?_⟩
  · rintro d earlier rfl hsame
    refine List.eq_nil_iff_forall_not_mem.mpr fun p hp => ?_
    obtain ⟨look, hlook, hname, hdiffer⟩ := (hreported p).mp hp
    obtain ⟨l, -, rfl⟩ := Option.map_eq_some_iff.mp hlook
    cases hname
    exact hdiffer (hsame _)
  · refine forall_congr' fun p => forall₂_congr fun look hlook => forall_congr' fun hname => ?_
    have hthis : p ∈ changed ↔ now.contents? p ≠ look.contents? := by
      rw [hreported]
      constructor
      · rintro ⟨look', hlook', -, hdiffer⟩
        cases Option.mem_unique hlook hlook'
        exact hdiffer
      · exact fun hdiffer => ⟨look, hlook, hname, hdiffer⟩
    rw [hthis]
    constructor
    · intro hiff hother
      have hdiffer : now.contents? p ≠ look.contents? := fun h =>
        hother (h.symm.trans (of_not_not fun hne => hiff.mpr hne h))
      exact ⟨hdiffer, hiff.mp hdiffer⟩
    · intro hother
      by_cases hsame : look.contents? = look.disk.contents? p
      · rw [hsame]
      · exact iff_of_true (hother hsame).1 (hother hsame).2

/-- A disk with one file. -/
def oneFileDisk (contents : List UInt8) : Disk :=
  ⟨[(["p"], .directory), (["p", "A.kt"], .file contents)], []⟩

/-- A file that is written after it was watched anew, under a name with one slash more, is
reported. -/
theorem poll_reports_written :
    let p : Path := ⟨"/p/A.kt"⟩
    let history := [(oneFileDisk [], Event.watch ⟨"/p//A.kt"⟩), (oneFileDisk [], .poll),
      (oneFileDisk [], .watch p)]
    let now := oneFileDisk [32]
    let changed := ((ofHistory history).poll now).1
    DigestsDiffer (now.entries :: history.map (·.1.entries)) ∧
      (∃ look ∈ look? p history, look.name = p ∧ now.contents? p ≠ look.contents?) ∧
      p ∈ changed ∧ changed.Pairwise Path.Before := by
  intro p history now changed
  have hdigests : DigestsDiffer (now.entries :: history.map (·.1.entries)) := by decide +kernel
  have hlook : look? p history = some ⟨p, ⟨"/p//A.kt"⟩, oneFileDisk []⟩ := by
    have hsame : (⟨"/p//A.kt"⟩ : Path).same p = true := by decide +kernel
    have hsame' : p.same p = true := by decide +kernel
    simp only [history, look?, hsame, hsame', if_true]
    rfl
  have hdiffer : ∃ look ∈ look? p history, look.name = p ∧ now.contents? p ≠ look.contents? :=
    ⟨_, hlook, rfl, by decide +kernel⟩
  obtain ⟨⟨hordered, -⟩, hreported, -⟩ := poll_reports_changed history now hdigests
  exact ⟨hdigests, hdiffer, (hreported p).mpr hdiffer, hordered⟩

/-- A file that is watched anew under a name that ends with a slash, under which no file can be read,
is reported though it is what it was. -/
theorem unchanged_file_reported :
    let p : Path := ⟨"/p/A.kt"⟩
    let d := oneFileDisk []
    let history := [(d, Event.watch ⟨"/p/A.kt/"⟩), (d, .poll), (d, .watch p)]
    p ∈ ((ofHistory history).poll d).1 ∧
      ∀ look ∈ look? p history, d.contents? p = look.disk.contents? p := by
  intro p d history
  refine ⟨by decide +kernel, fun look hlook => ?_⟩
  have hdisk : look.disk ∈ history.map (·.1) := disk_of_look? hlook
  simp only [history, List.map_cons, List.map_nil, List.mem_cons, List.not_mem_nil, or_false,
    or_self] at hdisk
  rw [hdisk]

end SpecLens.Watcher
