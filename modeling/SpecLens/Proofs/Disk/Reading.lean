import Mathlib.Tactic.Lemma
import SpecLens.Project.Basic
import SpecLens.Project.Watcher
import SpecLens.Proofs.Text.Line

/-!
# What depends on the contents of a file

Where a path leads does not depend on what else a disk holds. So a source file that has the same
contents on two disks is loaded alike and belongs to the same module, and one that cannot be read
is not loaded.
-/

namespace SpecLens

lemma mapError_ok {ε ε' α : Type} (f : ε → ε') (a : α) :
    (Except.ok a : Except ε α).mapError f = .ok a := rfl

lemma mapError_error {ε ε' α : Type} (f : ε → ε') (e : ε) :
    (Except.error e : Except ε α).mapError f = .error (f e) := rfl

/-- The entries of a disk. -/
abbrev Files := List (List String × Entry)

/-- The contents of a file on one of several disks. -/
def Stored (disks : List Files) (contents : List UInt8) : Prop :=
  ∃ files ∈ disks, ∃ names, (names, .file contents) ∈ files

/-- No two contents have the same digest. -/
def DigestsDiffer (disks : List Files) : Prop :=
  ∀ c c', Stored disks c → Stored disks c' → Sha256.digest c = Sha256.digest c' → c = c'

/-- The contents of all files on some disks. -/
def storedContents (disks : List Files) : List (List UInt8) :=
  disks.flatten.filterMap fun e => match e.2 with
    | .file contents => some contents
    | .directory => none

lemma mem_storedContents {disks : List Files} {c : List UInt8} :
    c ∈ storedContents disks ↔ Stored disks c := by
  simp only [storedContents, Stored, List.mem_filterMap, List.mem_flatten]
  constructor
  · rintro ⟨⟨names, entry⟩, ⟨files, hfiles, hmem⟩, hentry⟩
    cases entry with
    | file contents =>
      cases hentry
      exact ⟨files, hfiles, names, hmem⟩
    | directory => cases hentry
  · rintro ⟨files, hfiles, names, hmem⟩
    exact ⟨(names, .file c), ⟨files, hfiles, hmem⟩, rfl⟩

instance (disks : List Files) : Decidable (DigestsDiffer disks) :=
  decidable_of_iff
    (∀ c ∈ storedContents disks, ∀ c' ∈ storedContents disks,
      Sha256.digest c = Sha256.digest c' → c = c')
    ⟨fun h c c' hc hc' => h c (mem_storedContents.mpr hc) c' (mem_storedContents.mpr hc'),
      fun h c hc c' hc' => h c c' (mem_storedContents.mp hc) (mem_storedContents.mp hc')⟩

/-- What can be read under a path. -/
def Disk.contents? (d : Disk) (p : Path) : Option (List UInt8) := (d.read p).toOption

lemma Disk.digest?_eq (d : Disk) (p : Path) : d.digest? p = (d.contents? p).map Sha256.digest := by
  unfold digest? contents?
  cases d.read p <;> rfl

namespace Disk

variable {d d' : Disk} {p : Path}

/-- Where a segment leads if it can be followed. -/
def lead (names : List String) (segment : List Char) : List String :=
  match Path.component? segment with
  | some .up => names.dropLast
  | some (.name text) => names ++ [text]
  | _ => names

lemma step_eq_ok {names names' : List String} {segment : List Char}
    (h : d.step names segment = .ok names') : names' = lead names segment := by
  unfold step at h
  unfold lead
  split at h
  · cases hcomponent : Path.component? segment with
    | none =>
      rw [hcomponent] at h
      exact (Except.ok.inj h).symm
    | some component =>
      rw [hcomponent] at h
      cases component with
      | up => exact (Except.ok.inj h).symm
      | root => exact (Except.ok.inj h).symm
      | here => exact (Except.ok.inj h).symm
      | name text =>
        dsimp only at h
        split at h
        · simp at h
        · split at h
          · exact (Except.ok.inj h).symm
          · simp at h
  · simp at h

lemma foldlM_step_eq_ok {segments : List (List Char)} {names names' : List String}
    (h : segments.foldlM d.step names = .ok names') : names' = segments.foldl lead names := by
  induction segments generalizing names with
  | nil => exact (Except.ok.inj h).symm
  | cons segment rest ih =>
    rw [List.foldlM_cons] at h
    cases hstep : d.step names segment with
    | error e =>
      rw [hstep] at h
      simp [bind, Except.bind] at h
    | ok next =>
      rw [hstep] at h
      rw [List.foldl_cons, ← step_eq_ok hstep]
      exact ih h

/-- A path that can be followed leads where its segments say, however long it is. -/
lemma follow_eq_ok {names : List String} (h : d.follow p = .ok names) :
    ∃ start, d.origin p = .ok start ∧ names = p.segments.foldl lead start ∧
      d.resolve p = .ok names := by
  unfold follow start at h
  cases horigin : d.origin p with
  | error e => simp [horigin, bind, Except.bind] at h
  | ok start =>
    simp only [horigin, bind, Except.bind] at h
    split at h
    · simp at h
    · rename_i hstart
      split at hstart
      · simp at hstart
      · cases hstart
        refine ⟨start, rfl, foldlM_step_eq_ok h, ?_⟩
        simpa [resolve, horigin, bind, Except.bind] using h

/-- A path that can be followed on two disks leads to the same names on both. -/
lemma canonical_congr {names names' : List String} (hhere : d.here = d'.here)
    (h : d.follow p = .ok names) (h' : d'.follow p = .ok names') :
    d.canonical p = d'.canonical p := by
  obtain ⟨start, hstart, hnames, hresolve⟩ := follow_eq_ok h
  obtain ⟨start', hstart', hnames', hresolve'⟩ := follow_eq_ok h'
  have horigin : d.origin p = d'.origin p := by rw [origin, origin, hhere]
  rw [hstart, hstart'] at horigin
  cases horigin
  rw [canonical, canonical, hresolve, hresolve', hnames, hnames']

lemma read_eq_ok {contents : List UInt8} (h : d.read p = .ok contents) :
    d.entry p = .ok (.file contents) ∧ ∃ names, d.follow p = .ok names ∧
      d.find? names = some (.file contents) := by
  have hentry : d.entry p = .ok (.file contents) := by
    unfold read at h
    cases hentry : d.entry p with
    | error e => simp [hentry, bind, Except.bind] at h
    | ok entry =>
      cases entry with
      | file c => simpa [hentry, bind, Except.bind] using h
      | directory => simp [hentry, bind, Except.bind] at h
  refine ⟨hentry, ?_⟩
  unfold entry at hentry
  cases hfollow : d.follow p with
  | error e => simp [hfollow, bind, Except.bind] at hentry
  | ok names =>
    simp only [hfollow, bind, Except.bind] at hentry
    split at hentry
    · rename_i hfind
      cases hentry
      exact ⟨names, rfl, hfind⟩
    · simp at hentry

lemma mem_entries_of_find? {names : List String} {contents : List UInt8}
    (h : d.find? names = some (.file contents)) : (names, .file contents) ∈ d.entries := by
  unfold find? at h
  split at h
  · simp at h
  · obtain ⟨⟨names', entry⟩, hentry, rfl⟩ := Option.map_eq_some_iff.mp h
    have hnames : names' = names := by simpa using List.find?_some hentry
    exact hnames ▸ List.mem_of_find?_eq_some hentry

lemma mem_entries_of_read {contents : List UInt8} (h : d.read p = .ok contents) :
    ∃ names, (names, .file contents) ∈ d.entries := by
  obtain ⟨-, names, -, hfind⟩ := read_eq_ok h
  exact ⟨names, mem_entries_of_find? hfind⟩

lemma readText_error_of_read {cause : DiskError} (h : d.read p = .error cause) :
    d.readText p = .error cause := by
  simp [readText, h, bind, Except.bind]

lemma readText_error_of_size {cause : DiskError} (h : d.size p = .error cause) :
    d.readText p = .error cause := by
  have hentry : d.entry p = .error cause := by
    unfold size at h
    cases hentry : d.entry p with
    | error _ => simpa [hentry, Except.map] using h
    | ok _ => simp [hentry, Except.map] at h
  simp [readText, read, hentry, bind, Except.bind]

lemma exists_of_isFile (h : d.isFile p = true) : d.exists? p = true := by
  unfold isFile at h
  unfold exists?
  cases hentry : d.entry p with
  | ok _ => rfl
  | error _ => simp [hentry] at h

lemma exists_read_of_isFile (h : d.isFile p = true) : ∃ contents, d.read p = .ok contents := by
  unfold isFile at h
  unfold read
  split at h
  · rename_i contents hentry
    exact ⟨contents, by simp [hentry, bind, Except.bind]⟩
  · cases h

lemma exists_read_error_of_not_exists (h : d.exists? p = false) :
    ∃ cause, d.read p = .error cause := by
  unfold exists? at h
  cases hentry : d.entry p with
  | ok _ => simp [hentry, Except.isOk, Except.toBool] at h
  | error cause => exact ⟨cause, by simp [read, hentry, bind, Except.bind]⟩

lemma digest?_of_not_exists (h : d.exists? p = false) : d.digest? p = none := by
  obtain ⟨cause, hread⟩ := exists_read_error_of_not_exists h
  rw [digest?, hread]

/-- Files with equal digests have equal contents, if none of the contents collide. -/
lemma contents?_eq_of_digest? {disks : List Files} {q : Path} (hdigests : DigestsDiffer disks)
    (hmem : d.entries ∈ disks) (hmem' : d'.entries ∈ disks) (h : d.digest? p = d'.digest? q) :
    d.contents? p = d'.contents? q := by
  unfold digest? at h
  unfold contents?
  cases hread : d.read p with
  | ok c =>
    cases hread' : d'.read q with
    | ok c' =>
      rw [hread, hread'] at h
      have hsame : c = c' := hdigests c c' ⟨_, hmem, mem_entries_of_read hread⟩
        ⟨_, hmem', mem_entries_of_read hread'⟩ (Option.some.inj h)
      rw [hsame]
    | error _ => simp [hread, hread'] at h
  | error _ =>
    cases hread' : d'.read q with
    | ok _ => simp [hread, hread'] at h
    | error _ => rfl

end Disk

namespace Discovery

variable {d : Discovery} {w w' : World} {p : Path}

lemma load_congr {contents : List UInt8} (hgrammar : w.grammar = w'.grammar)
    (h : w.disk.read p = .ok contents) (h' : w'.disk.read p = .ok contents) :
    d.load w p = d.load w' p := by
  have hsize : w.disk.size p = w'.disk.size p := by
    rw [Disk.size, Disk.size, (Disk.read_eq_ok h).1, (Disk.read_eq_ok h').1]
  have htext : w.disk.readText p = w'.disk.readText p := by
    rw [Disk.readText, Disk.readText, h, h']
  rw [load, load, hsize, htext, hgrammar]

/-- A source file within the limit is loaded with the text that its bytes stand for. -/
lemma load_of_entry {cs : List Char} (hsource : d.config.isSource p = true)
    (hentry : w.disk.entry p = .ok (.file (Text.toBytes cs)))
    (hlimit : (Text.toBytes cs).length ≤ d.config.maxFileSize) :
    d.load w p = .ok (.ofText w.grammar (String.ofList cs)) := by
  have htext : w.disk.readText p = .ok (String.ofList cs) := by
    simp [Disk.readText, Disk.read, hentry, Text.ofBytes?_toBytes, bind, Except.bind]
  simp [load, Disk.size, hsource, hentry, htext, Except.map, mapError_ok, bind, Except.bind,
    Nat.not_lt.mpr hlimit]

/-- What keeps a file from being loaded. -/
lemma exists_load_error_iff : (∃ error, d.load w p = .error error) ↔
    d.config.isSource p = false ∨
      (∃ size, w.disk.size p = .ok size ∧ d.config.maxFileSize < size) ∨
      ∃ cause, w.disk.readText p = .error cause := by
  unfold load
  cases hsource : d.config.isSource p with
  | false => simp
  | true =>
    cases hsize : w.disk.size p with
    | error cause =>
      have hread := Disk.readText_error_of_size hsize
      simp [hread, mapError_error, bind, Except.bind]
    | ok size =>
      by_cases hlimit : d.config.maxFileSize < size
      · simp [mapError_ok, bind, Except.bind, hlimit]
      · cases hread : w.disk.readText p with
        | error cause => simp [mapError_ok, mapError_error, bind, Except.bind, hlimit]
        | ok text => simp [mapError_ok, bind, Except.bind, hlimit]

end Discovery

lemma Project.moduleOf?_congr {project : Project} {d d' : Disk} {p : Path}
    {contents contents' : List UInt8} (hhere : d.here = d'.here) (h : d.read p = .ok contents)
    (h' : d'.read p = .ok contents') : project.moduleOf? d p = project.moduleOf? d' p := by
  obtain ⟨-, names, hfollow, -⟩ := Disk.read_eq_ok h
  obtain ⟨-, names', hfollow', -⟩ := Disk.read_eq_ok h'
  rw [moduleOf?, moduleOf?, Disk.canonical_congr hhere hfollow hfollow']

end SpecLens
