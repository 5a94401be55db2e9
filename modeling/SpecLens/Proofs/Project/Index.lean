import Mathlib.Data.List.Induction
import SpecLens.Project.Index
import SpecLens.Proofs.Disk.PathOrder
import SpecLens.Proofs.Disk.Reading
import SpecLens.Proofs.Spec.Body
import SpecLens.Proofs.Text.Line

/-!
# A scan and its files

A scan takes up the walked files one by one, so its entries are what is recognized in each file by
itself. Each entry names the innermost module around its file.
-/

namespace SpecLens

namespace Project

/-- What a walk through a project yields. -/
def walked (p : Project) (w : World) : List Path :=
  (match w.disk.follow p.root with
    | .ok names => w.disk.walk w.environment p.config.excludeDirs names
    | .error _ => []).map Path.ofNames

lemma sourceFiles_eq (p : Project) (w : World) :
    p.sourceFiles w = ((p.walked w).filter (p.isScanned w.disk)).mergeSort Path.le := rfl

end Project

/-- Whether a file lies in a module. -/
def Module.Contains (m : Module) (d : Disk) (path : Path) : Prop :=
  ∃ real, d.canonical path = .ok real ∧ real.startsWith m.root = true

/-- A module around a file such that no other one lies deeper. -/
def Project.IsInnermost (p : Project) (d : Disk) (path : Path) (m : Module) : Prop :=
  m ∈ p.modules ∧ m.Contains d path ∧
    ∀ m' ∈ p.modules, m'.Contains d path → m'.depth ≤ m.depth

lemma Module.deepest?_cases (modules : List Module) :
    (deepest? modules = none ∧ modules = []) ∨
      ∃ m ∈ modules, deepest? modules = some m ∧ ∀ m' ∈ modules, m'.depth ≤ m.depth := by
  induction modules using List.reverseRecOn with
  | nil => exact .inl ⟨rfl, rfl⟩
  | append_singleton modules last ih =>
    right
    rw [deepest?, List.foldl_append, ← deepest?]
    rcases ih with ⟨hnone, rfl⟩ | ⟨m, hm, hdeepest, hmax⟩
    · exact ⟨last, by simp, by rw [hnone]; rfl, by simp⟩
    · rw [hdeepest]
      by_cases hle : m.depth ≤ last.depth
      · refine ⟨last, by simp, by simp [hle], fun m' hm' => ?_⟩
        rcases List.mem_append.mp hm' with hm' | hm'
        · exact (hmax m' hm').trans hle
        · rw [List.mem_singleton.mp hm']
      · refine ⟨m, by simp [hm], by simp [hle], fun m' hm' => ?_⟩
        rcases List.mem_append.mp hm' with hm' | hm'
        · exact hmax m' hm'
        · rw [List.mem_singleton.mp hm']
          omega

/-- The module of a file is an innermost one, and only a file in no module has none. -/
lemma Project.moduleOf?_cases (p : Project) (d : Disk) (path : Path) :
    (p.moduleOf? d path = none ∧ ∀ m ∈ p.modules, ¬m.Contains d path) ∨
      ∃ m, p.moduleOf? d path = some m ∧ p.IsInnermost d path m := by
  unfold moduleOf?
  cases hreal : d.canonical path with
  | error e =>
    left
    refine ⟨rfl, ?_⟩
    rintro m - ⟨real, hok, -⟩
    simp [hreal] at hok
  | ok real =>
    have hcontains (m : Module) : m.Contains d path ↔ real.startsWith m.root = true := by
      simp [Module.Contains, hreal]
    rcases Module.deepest?_cases (p.modules.filter fun m => real.startsWith m.root) with
      ⟨hnone, hnil⟩ | ⟨m, hm, hsome, hmax⟩
    · left
      refine ⟨hnone, fun m hm => ?_⟩
      rw [hcontains]
      exact List.filter_eq_nil_iff.mp hnil m hm
    · right
      obtain ⟨hm, hroot⟩ := List.mem_filter.mp hm
      refine ⟨m, hsome, hm, (hcontains m).mpr hroot, fun m' hm' hroot' => ?_⟩
      exact hmax m' (List.mem_filter.mpr ⟨hm', (hcontains m').mp hroot'⟩)

lemma Project.isInnermost_of_moduleOf? {p : Project} {d : Disk} {path : Path} {m : Module}
    (h : p.moduleOf? d path = some m) : p.IsInnermost d path m := by
  rcases p.moduleOf?_cases d path with ⟨hnone, -⟩ | ⟨m', hsome, hinner⟩
  · cases hnone.symm.trans h
  · cases hsome.symm.trans h
    exact hinner

namespace ProjectIndex

variable {p : Project} {d : Discovery} {w w' : World} {path : Path} {e : IndexedFile}

lemma indexed?_eq_some (h : indexed? p d w path = some e) :
    e.path = path ∧ d.specsOfFile w path = .ok e.specs ∧ e.specs ≠ [] ∧
      e.module = ((p.moduleOf? w.disk path).map (·.name)).getD "" := by
  unfold indexed? at h
  split at h
  · rename_i specs hspecs
    split at h
    · cases h
    · rename_i hsome
      cases Option.some.inj h
      exact ⟨rfl, hspecs, by simpa using hsome, rfl⟩
  · cases h

lemma indexed?_isSome_iff : (indexed? p d w path).isSome = true ↔
    ∃ specs, d.specsOfFile w path = .ok specs ∧ specs ≠ [] := by
  unfold indexed?
  cases d.specsOfFile w path with
  | error _ => simp
  | ok specs => cases specs <;> simp

/-- A file that is recognized is one the scan takes up. -/
lemma isScanned_of_specsOfFile (hconfig : d.config = p.config) {specs : List Spec}
    (hfile : w.disk.isFile path = true) (h : d.specsOfFile w path = .ok specs) :
    p.isScanned w.disk path = true := by
  have hload : ¬∃ error, d.load w path = .error error := by
    rintro ⟨error, herror⟩
    simp [Discovery.specsOfFile, herror, Except.map] at h
  rw [Discovery.exists_load_error_iff] at hload
  simp only [not_or, Bool.not_eq_false, not_exists, not_and, Nat.not_lt] at hload
  obtain ⟨hsource, hsize, htext⟩ := hload
  rw [hconfig] at hsource hsize
  rw [Project.isScanned, hfile, hsource]
  cases hsize' : w.disk.size path with
  | error cause => exact (htext cause (Disk.readText_error_of_size hsize')).elim
  | ok size => simpa using hsize size hsize'

/-- The entries are those of the files that the scan takes up, one for each that has specs. -/
lemma map_path_files (p : Project) (d : Discovery) (w : World) :
    (scan p d w).files.map (·.path) =
      (p.sourceFiles w).filter fun path => (indexed? p d w path).isSome := by
  have h (paths : List Path) : (paths.filterMap (indexed? p d w)).map (·.path) =
      paths.filter fun path => (indexed? p d w path).isSome := by
    induction paths with
    | nil => rfl
    | cons path rest ih =>
      rw [List.filterMap_cons, List.filter_cons]
      cases he : indexed? p d w path with
      | none => simpa [he] using ih
      | some e => simp [ih, (indexed?_eq_some he).1]
  exact h _

lemma sourceFiles_before (h : (p.walked w).Pairwise fun a b => a.same b = false) :
    (p.sourceFiles w).Pairwise Path.Before := by
  rw [Project.sourceFiles_eq]
  exact Path.mergeSort_before (h.filter _)

lemma mem_sourceFiles : path ∈ p.sourceFiles w ↔
    path ∈ p.walked w ∧ p.isScanned w.disk path = true := by
  rw [Project.sourceFiles_eq, List.mem_mergeSort, List.mem_filter]

lemma isFile_of_isScanned (h : p.isScanned w.disk path = true) : w.disk.isFile path = true := by
  simp only [Project.isScanned, Bool.and_eq_true] at h
  exact h.1.1

lemma mem_map_path (hconfig : d.config = p.config) :
    path ∈ (scan p d w).files.map (·.path) ↔ path ∈ p.walked w ∧ w.disk.isFile path = true ∧
      ∃ specs, d.specsOfFile w path = .ok specs ∧ specs ≠ [] := by
  rw [map_path_files, List.mem_filter, mem_sourceFiles, indexed?_isSome_iff]
  constructor
  · rintro ⟨⟨hwalked, hscanned⟩, hspecs⟩
    exact ⟨hwalked, isFile_of_isScanned hscanned, hspecs⟩
  · rintro ⟨hwalked, hfile, specs, hspecs, hsome⟩
    exact ⟨⟨hwalked, isScanned_of_specsOfFile hconfig hfile hspecs⟩, specs, hspecs, hsome⟩

lemma entry_of_mem_files (he : e ∈ (scan p d w).files) :
    d.specsOfFile w e.path = .ok e.specs ∧
      ((∃ m, p.IsInnermost w.disk e.path m ∧ e.module = m.name) ∨
        (∀ m ∈ p.modules, ¬m.Contains w.disk e.path) ∧ e.module = "") := by
  obtain ⟨path, -, hindexed⟩ := List.mem_filterMap.mp he
  obtain ⟨rfl, hspecs, -, hmodule⟩ := indexed?_eq_some hindexed
  refine ⟨hspecs, ?_⟩
  rcases p.moduleOf?_cases w.disk e.path with ⟨hnone, hnot⟩ | ⟨m, hsome, hinner⟩
  · exact .inr ⟨hnot, by rw [hmodule, hnone]; rfl⟩
  · exact .inl ⟨m, hinner, by rw [hmodule, hsome]; rfl⟩

/-- Two worlds in which a walk meets the same files, apart from what stands under one path. -/
structure DifferOnlyAt (p : Project) (w w' : World) (path : Path) : Prop where
  grammar : w'.grammar = w.grammar
  walked : p.walked w' = p.walked w
  entry : ∀ q ∈ p.walked w, q ≠ path → w'.disk.entry q = w.disk.entry q
  canonical : ∀ q ∈ p.walked w, q ≠ path → w'.disk.canonical q = w.disk.canonical q

lemma DifferOnlyAt.isScanned (h : DifferOnlyAt p w w' path) {q : Path} (hq : q ∈ p.walked w)
    (hne : q ≠ path) : p.isScanned w'.disk q = p.isScanned w.disk q := by
  have hentry := h.entry q hq hne
  rw [Project.isScanned, Project.isScanned, Disk.size, Disk.size, Disk.isFile, Disk.isFile, hentry]

lemma DifferOnlyAt.indexed? (h : DifferOnlyAt p w w' path) {q : Path} (hq : q ∈ p.walked w)
    (hne : q ≠ path) : ProjectIndex.indexed? p d w' q = ProjectIndex.indexed? p d w q := by
  have hentry := h.entry q hq hne
  have hsize : w'.disk.size q = w.disk.size q := by rw [Disk.size, Disk.size, hentry]
  have htext : w'.disk.readText q = w.disk.readText q := by
    rw [Disk.readText, Disk.readText, Disk.read, Disk.read, hentry]
  have hspecs : d.specsOfFile w' q = d.specsOfFile w q := by
    rw [Discovery.specsOfFile, Discovery.specsOfFile, Discovery.load, Discovery.load, hsize, htext,
      h.grammar]
  have hmodule : p.moduleOf? w'.disk q = p.moduleOf? w.disk q := by
    rw [Project.moduleOf?, Project.moduleOf?, h.canonical q hq hne]
  rw [ProjectIndex.indexed?, ProjectIndex.indexed?, hspecs, hmodule]

/-- A file that cannot be loaded is missing from the scan, and nothing else is. -/
lemma files_of_error (hwalked : (p.walked w).Pairwise fun a b => a.same b = false)
    (h : DifferOnlyAt p w w' path) {error : LoadError}
    (herror : d.specsOfFile w' path = .error error) :
    (scan p d w').files = (scan p d w).files.filter fun e => e.path ≠ path := by
  have hmissing : indexed? p d w' path = none := by
    rw [indexed?, herror]
  have hothers : (p.sourceFiles w').filter (· ≠ path) = (p.sourceFiles w).filter (· ≠ path) := by
    have hwalked' : (p.walked w').Pairwise fun a b => a.same b = false := by rwa [h.walked]
    refine List.Perm.eq_of_pairwise (fun a b _ _ hab hba => (hab.asymm hba).elim)
      ((sourceFiles_before hwalked').filter _) ((sourceFiles_before hwalked).filter _) ?_
    have hsame : ((p.walked w').filter (p.isScanned w'.disk)).filter (· ≠ path) =
        ((p.walked w).filter (p.isScanned w.disk)).filter (· ≠ path) := by
      rw [h.walked, List.filter_filter, List.filter_filter]
      apply List.filter_congr
      intro q hq
      by_cases hne : q = path
      · simp [hne]
      · simp [h.isScanned hq hne]
    rw [Project.sourceFiles_eq, Project.sourceFiles_eq]
    exact ((List.mergeSort_perm _ _).filter _).trans
      (hsame ▸ ((List.mergeSort_perm _ _).filter _).symm)
  calc (p.sourceFiles w').filterMap (indexed? p d w')
      = ((p.sourceFiles w').filter (· ≠ path)).filterMap (indexed? p d w') := by
        rw [List.filterMap_filter]
        apply List.filterMap_congr
        intro q _
        by_cases hne : q = path
        · simp [hne, hmissing]
        · simp [hne]
    _ = ((p.sourceFiles w).filter (· ≠ path)).filterMap (indexed? p d w) := by
        rw [hothers]
        apply List.filterMap_congr
        intro q hq
        obtain ⟨hq, hne⟩ := List.mem_filter.mp hq
        exact h.indexed? (mem_sourceFiles.mp hq).1 (by simpa using hne)
    _ = ((p.sourceFiles w).filterMap (indexed? p d w)).filter fun e => e.path ≠ path := by
        rw [List.filter_filterMap, List.filterMap_filter]
        apply List.filterMap_congr
        intro q _
        cases he : indexed? p d w q with
        | none => simp
        | some e => by_cases hne : q = path <;> simp [Option.filter, (indexed?_eq_some he).1, hne]

/-- A scan lists the walked files that are recognized to hold specs, by path and each once. Each
entry has the specs of its file and the name of the innermost module around it. All source files
within the limit are counted, and one that cannot be loaded leaves the other entries as they are. -/
theorem scan_agrees (p : Project) (w : World)
    (h : (p.walked w).Pairwise fun a b => a.same b = false) :
    ((scan p (.ofConfig p.config) w).files.map (·.path)).Pairwise Path.Before ∧
    (∀ path, path ∈ (scan p (.ofConfig p.config) w).files.map (·.path) ↔
      path ∈ p.walked w ∧ w.disk.isFile path = true ∧
        ∃ specs, (Discovery.ofConfig p.config).specsOfFile w path = .ok specs ∧ specs ≠ []) ∧
    (∀ e ∈ (scan p (.ofConfig p.config) w).files,
      (Discovery.ofConfig p.config).specsOfFile w e.path = .ok e.specs ∧
        ((∃ m, p.IsInnermost w.disk e.path m ∧ e.module = m.name) ∨
          (∀ m ∈ p.modules, ¬m.Contains w.disk e.path) ∧ e.module = "")) ∧
    (scan p (.ofConfig p.config) w).scanned = (p.walked w).countP (p.isScanned w.disk) ∧
    ∀ w' path error, DifferOnlyAt p w w' path →
      (Discovery.ofConfig p.config).specsOfFile w' path = .error error →
      (scan p (.ofConfig p.config) w').files =
        (scan p (.ofConfig p.config) w).files.filter fun e => e.path ≠ path := by
  refine ⟨?_, fun path => mem_map_path rfl, fun e he => entry_of_mem_files he, ?_,
    fun w' path error hw herror => files_of_error h hw herror⟩
  · rw [map_path_files]
    exact (sourceFiles_before h).filter _
  · rw [List.countP_eq_length_filter]
    exact (List.mergeSort_perm _ _).length_eq

/-- A project of two source files: one with a spec, the other no text. -/
def mixedProject : Project := ⟨⟨"/p"⟩, [⟨"p", ⟨"/p"⟩⟩], .standard⟩

def mixedWorld : World where
  disk := ⟨[(["p"], .directory), (["p", "A.kt"], .file (Text.toBytes hiddenTest.chars)),
    (["p", "B.kt"], .file [255])], []⟩
  environment := []
  grammar _ := hiddenTest.root

lemma specs_hiddenTest : (Discovery.ofConfig .standard).specs hiddenTest ≠ [] := by
  have hsome : ((Discovery.ofConfig .standard).specs hiddenTest).isEmpty = false := by
    decide
  simpa using hsome

lemma isSome_indexed?_of_hiddenTest (hgrammar : ∀ text, w.grammar text = hiddenTest.root)
    (hsource : DiscoveryConfig.standard.isSource path = true)
    (hentry : w.disk.entry path = .ok (.file (Text.toBytes hiddenTest.chars))) :
    (indexed? p (.ofConfig .standard) w path).isSome = true := by
  have hlimit : (Text.toBytes hiddenTest.chars).length ≤ DiscoveryConfig.standard.maxFileSize := by
    decide +kernel
  have hload := Discovery.load_of_entry (d := .ofConfig .standard) hsource hentry hlimit
  have hsame : Source.ofText w.grammar (String.ofList hiddenTest.chars) = hiddenTest := by
    simp [Source.ofText, hgrammar]
  refine indexed?_isSome_iff.mpr ⟨_, ?_, specs_hiddenTest⟩
  rw [Discovery.specsOfFile, hload, hsame]
  rfl

/-- Both files are counted, and only the one with a spec is listed. -/
theorem mixedProject_scanned :
    ((mixedProject.walked mixedWorld).Pairwise fun a b => a.same b = false) ∧
      (scan mixedProject (.ofConfig .standard) mixedWorld).scanned = 2 ∧
      ⟨"/p/A.kt"⟩ ∈ (scan mixedProject (.ofConfig .standard) mixedWorld).files.map (·.path) ∧
      ⟨"/p/B.kt"⟩ ∉ (scan mixedProject (.ofConfig .standard) mixedWorld).files.map (·.path) := by
  have hwalked : (mixedProject.walked mixedWorld).Pairwise fun a b => a.same b = false := by
    decide +kernel
  obtain ⟨-, hlisted, -, hscanned, -⟩ := scan_agrees mixedProject mixedWorld hwalked
  have hfile : mixedWorld.disk.isFile ⟨"/p/A.kt"⟩ = true ∧
      ⟨"/p/A.kt"⟩ ∈ mixedProject.walked mixedWorld := by
    decide +kernel
  have hsome : (indexed? mixedProject (.ofConfig .standard) mixedWorld ⟨"/p/A.kt"⟩).isSome =
      true :=
    isSome_indexed?_of_hiddenTest (fun _ => rfl) (by decide) (by decide +kernel)
  have hnone : (indexed? mixedProject (.ofConfig .standard) mixedWorld ⟨"/p/B.kt"⟩).isSome =
      false := by
    decide +kernel
  refine ⟨hwalked, hscanned.trans (by decide +kernel), ?_, fun hmem => ?_⟩
  · exact (hlisted _).mpr ⟨hfile.2, hfile.1, indexed?_isSome_iff.mp hsome⟩
  · cases hnone.symm.trans (indexed?_isSome_iff.mpr ((hlisted _).mp hmem).2.2)

end ProjectIndex

end SpecLens
