import SpecLens.Config.Load
import SpecLens.Proofs.Disk.Reading
import SpecLens.Proofs.Text.Line
import SpecLens.Proofs.Toml.Document
import SpecLens.Proofs.Toml.Range

/-!
# Printed configurations read back

A configuration whose numbers are in range is printed as a document of its sections, and that is read
as the same configuration. Every number that comes from a file is in range, so only the environment
can give a configuration that is not printed.
-/

namespace SpecLens

open Toml

namespace Config

/-- The lines of a configuration with the values that they stand for. -/
def lines (c : Config) : List Section := [
  ⟨"discovery", [
    ⟨"extensions", printArray c.discovery.extensions,
      .array (c.discovery.extensions.map .string)⟩,
    ⟨"exclude_dirs", printArray c.discovery.excludeDirs,
      .array (c.discovery.excludeDirs.map .string)⟩,
    ⟨"module_markers", printArray c.discovery.moduleMarkers,
      .array (c.discovery.moduleMarkers.map .string)⟩,
    ⟨"max_file_size", toString c.discovery.maxFileSize, .integer c.discovery.maxFileSize⟩,
    ⟨"disabled_styles", printArray c.discovery.disabledStyles,
      .array (c.discovery.disabledStyles.map .string)⟩]⟩,
  ⟨"explorer", [
    ⟨"expand_all", printBool c.explorer.expandAll, .boolean c.explorer.expandAll⟩,
    ⟨"tick_rate_ms", toString c.explorer.tickRate, .integer c.explorer.tickRate⟩,
    ⟨"poll_interval_ms", toString c.explorer.pollInterval, .integer c.explorer.pollInterval⟩]⟩,
  ⟨"run", [
    ⟨"gradle_command", printString c.run.gradleCommand, .string c.run.gradleCommand⟩,
    ⟨"test_task", printString c.run.testTask, .string c.run.testTask⟩,
    ⟨"coverage_task", printString c.run.coverageTask, .string c.run.coverageTask⟩,
    ⟨"debug_flag", printString c.run.debugFlag, .string c.run.debugFlag⟩]⟩,
  ⟨"logging",
    ⟨"filter", printString c.logging.filter, .string c.logging.filter⟩ ::
      (c.logging.file.map fun file => ⟨"file", printString file, .string file⟩).toList⟩]

lemma sections_eq_lines (c : Config) : c.sections = c.lines.map Section.printed := by
  cases hfile : c.logging.file <;> simp [sections, lines, Section.printed, hfile]

lemma sound_array {key : String} (items : List String) (hkey : IsBare key) :
    Assignment.Sound ⟨key, printArray items, .array (items.map .string)⟩ :=
  ⟨hkey, denotes_printArray 78 items⟩

lemma sound_string {key : String} (s : String) (hkey : IsBare key) :
    Assignment.Sound ⟨key, printString s, .string s⟩ :=
  ⟨hkey, denotes_printString maxDepth s⟩

lemma sound_bool {key : String} (b : Bool) (hkey : IsBare key) :
    Assignment.Sound ⟨key, printBool b, .boolean b⟩ :=
  ⟨hkey, denotes_printBool maxDepth b⟩

lemma sound_number {key : String} {n : Nat} (hn : inRange n = true) (hkey : IsBare key) :
    Assignment.Sound ⟨key, toString n, .integer n⟩ :=
  ⟨hkey, denotes_toString maxDepth hn⟩

lemma sound_lines {c : Config} (h : c.isPrintable = true) : ∀ s ∈ c.lines, s.Sound := by
  simp only [isPrintable, Bool.and_eq_true] at h
  obtain ⟨⟨hsize, htick⟩, hpoll⟩ := h
  simp only [lines, List.forall_mem_cons, List.not_mem_nil, false_implies, implies_true, and_true]
  have hname : IsBare "discovery" ∧ IsBare "explorer" ∧ IsBare "run" ∧ IsBare "logging" := by decide
  obtain ⟨hdiscovery, hexplorer, hrun, hlogging⟩ := hname
  refine ⟨⟨hdiscovery, ?_, by simp⟩, ⟨hexplorer, ?_, by simp⟩, ⟨hrun, ?_, by simp⟩,
    ⟨hlogging, ?_, ?_⟩⟩
  · simp only [List.forall_mem_cons, List.not_mem_nil, false_implies, implies_true, and_true]
    exact ⟨sound_array _ (by decide), sound_array _ (by decide), sound_array _ (by decide),
      sound_number hsize (by decide), sound_array _ (by decide)⟩
  · simp only [List.forall_mem_cons, List.not_mem_nil, false_implies, implies_true, and_true]
    exact ⟨sound_bool _ (by decide), sound_number htick (by decide),
      sound_number hpoll (by decide)⟩
  · simp only [List.forall_mem_cons, List.not_mem_nil, false_implies, implies_true, and_true]
    exact ⟨sound_string _ (by decide), sound_string _ (by decide), sound_string _ (by decide),
      sound_string _ (by decide)⟩
  · cases c.logging.file with
    | none => simpa using sound_string _ (by decide)
    | some file => simpa using ⟨sound_string _ (by decide), sound_string _ (by decide)⟩
  · cases c.logging.file <;> simp

lemma texts_array (items : List String) :
    Setting.texts (.array (items.map .string)) = some items := by
  induction items with
  | nil => rfl
  | cons s items ih =>
    simp only [Setting.texts, List.map_cons, List.mapM_cons] at ih ⊢
    rw [ih]
    rfl

lemma ofEntries?_lines (c : Config) : ofEntries? (c.lines.map Section.value) = some c := by
  obtain ⟨discovery, explorer, run, ⟨filter, file⟩⟩ := c
  cases file <;>
    simp [ofEntries?, lines, Section.value, Setting.read, Setting.find?, Setting.isSection,
      DiscoveryConfig.ofToml?, ExplorerConfig.ofToml?, RunConfig.ofToml?, LoggingConfig.ofToml?,
      Setting.text, Setting.flag, Setting.count, texts_array, LoggingConfig.standard]

/-- A configuration that can be printed is read back. -/
theorem ofToml?_toToml {c : Config} (h : c.isPrintable = true) : ofToml? c.toToml = some c := by
  have hnodup : (c.lines.map (·.name)).Nodup := by simp [lines]
  rw [toToml, if_pos h, ofToml?, sections_eq_lines, read?_printSections (sound_lines h) hnodup,
    Option.bind_some, ofEntries?_lines]

lemma bounded_of_find? {v w : Value} {key : String} {place : Nat} (hv : v.Bounded)
    (h : Setting.find? v key place = some w) : w.Bounded := by
  cases hv with
  | table hentries =>
    obtain ⟨e, he, rfl⟩ := Option.map_eq_some_iff.mp h
    exact hentries e (List.mem_of_find?_eq_some he)
  | array hitems => exact hitems w (List.mem_of_getElem? h)
  | _ => cases h

/-- A number that is read is in range. -/
lemma inRange_of_read {v : Value} {key : String} {place default n : Nat} (hv : v.Bounded)
    (hdefault : inRange default = true)
    (h : Setting.read v key place Setting.count default = some n) : inRange n = true := by
  unfold Setting.read at h
  split at h
  · rename_i w hfind
    cases bounded_of_find? hv hfind with
    | @integer m hm =>
      cases m with
      | ofNat m =>
        cases h
        exact hm
      | negSucc m => cases h
    | _ => cases h
  · cases h
    exact hdefault

lemma inRange_of_discovery {v : Value} {discovery : DiscoveryConfig} (hv : v.Bounded)
    (h : DiscoveryConfig.ofToml? v = some discovery) : inRange discovery.maxFileSize = true := by
  obtain ⟨_, -, h⟩ := Option.bind_eq_some_iff.mp h
  obtain ⟨_, -, h⟩ := Option.bind_eq_some_iff.mp h
  obtain ⟨_, -, h⟩ := Option.bind_eq_some_iff.mp h
  obtain ⟨_, -, h⟩ := Option.bind_eq_some_iff.mp h
  obtain ⟨size, hsize, h⟩ := Option.bind_eq_some_iff.mp h
  obtain ⟨_, -, h⟩ := Option.bind_eq_some_iff.mp h
  cases h
  exact inRange_of_read hv (by decide) hsize

lemma inRange_of_explorer {v : Value} {explorer : ExplorerConfig} (hv : v.Bounded)
    (h : ExplorerConfig.ofToml? v = some explorer) :
    inRange explorer.tickRate = true ∧ inRange explorer.pollInterval = true := by
  obtain ⟨_, -, h⟩ := Option.bind_eq_some_iff.mp h
  obtain ⟨_, -, h⟩ := Option.bind_eq_some_iff.mp h
  obtain ⟨tick, htick, h⟩ := Option.bind_eq_some_iff.mp h
  obtain ⟨poll, hpoll, h⟩ := Option.bind_eq_some_iff.mp h
  cases h
  exact ⟨inRange_of_read hv (by decide) htick, inRange_of_read hv (by decide) hpoll⟩

lemma isPrintable_standard : standard.isPrintable = true := by decide

/-- A configuration that a file gives can be printed. -/
lemma isPrintable_of_ofToml? {c : Config} {text : String} (h : ofToml? text = some c) :
    c.isPrintable = true := by
  obtain ⟨entries, hentries, h⟩ := Option.bind_eq_some_iff.mp h
  have hbounded := bounded_of_read? hentries
  obtain ⟨discovery, hdiscovery, h⟩ := Option.bind_eq_some_iff.mp h
  obtain ⟨explorer, hexplorer, h⟩ := Option.bind_eq_some_iff.mp h
  obtain ⟨_, -, h⟩ := Option.bind_eq_some_iff.mp h
  obtain ⟨_, -, h⟩ := Option.bind_eq_some_iff.mp h
  cases h
  have hsize : inRange discovery.maxFileSize = true := by
    unfold Setting.read at hdiscovery
    split at hdiscovery
    · rename_i v hfind
      exact inRange_of_discovery (bounded_of_find? hbounded hfind) hdiscovery
    · cases hdiscovery
      decide
  have hticks : inRange explorer.tickRate = true ∧ inRange explorer.pollInterval = true := by
    unfold Setting.read at hexplorer
    split at hexplorer
    · rename_i v hfind
      exact inRange_of_explorer (bounded_of_find? hbounded hfind) hexplorer
    · cases hexplorer
      decide
  simp [isPrintable, hsize, hticks]

lemma eq_of_validate {c c' : Config} (h : c.validate = .ok c') : c' = c := by
  unfold validate at h
  split at h
  · cases h
  · split at h
    · cases h
    · exact (Except.ok.inj h).symm

/-- The size of files that the environment gives. -/
def sizeFrom? (env : Environment) : Option Nat :=
  (env.value? "KTSPEC_MAX_FILE_SIZE").bind (Text.unsigned? sizeLimit ·.toList)

/-- What loading yields: a valid configuration that could be printed before the environment changed
it. -/
structure Loaded (env : Environment) (c : Config) : Prop where
  valid : c.validate = .ok c
  base : ∃ base : Config, base.isPrintable = true ∧ c = base.override env

lemma loaded_of_validate {env : Environment} {base c : Config} (hbase : base.isPrintable = true)
    (h : (base.override env).validate = .ok c) : Loaded env c := by
  cases eq_of_validate h
  exact ⟨h, base, hbase, rfl⟩

lemma ofFile_eq {d : Disk} {env : Environment} {file : Path} {text : String}
    (hread : d.readText file = .ok text) :
    ofFile d env file =
      match ofToml? text with
      | some c => (c.override env).validate
      | none => .error .parse := by
  unfold ofFile
  rw [hread]
  rfl

lemma loaded_of_ofFile {d : Disk} {env : Environment} {file : Path} {c : Config}
    (h : ofFile d env file = .ok c) : Loaded env c := by
  cases hread : d.readText file with
  | error e =>
    unfold ofFile at h
    rw [hread] at h
    cases h
  | ok text =>
    rw [ofFile_eq hread] at h
    split at h
    · rename_i base hbase
      exact loaded_of_validate (isPrintable_of_ofToml? hbase) h
    · cases h

lemma loaded_of_load {d : Disk} {env : Environment} {root : Path} {c : Config}
    (h : load d env root = .ok c) : Loaded env c := by
  unfold load at h
  dsimp only at h
  split at h
  · exact loaded_of_ofFile h
  · split at h
    · exact loaded_of_ofFile h
    · exact loaded_of_validate isPrintable_standard h

lemma inRange_natCast (n : Nat) : inRange n = true ↔ n < 2 ^ 63 := by
  simp [inRange]

/-- Only the size of files can be out of range, and only where the environment gives it. -/
lemma Loaded.isPrintable_iff {env : Environment} {c : Config} (h : Loaded env c) :
    c.isPrintable = true ↔ c.discovery.maxFileSize < 2 ^ 63 := by
  obtain ⟨base, hbase, rfl⟩ := h.base
  simp only [isPrintable, Bool.and_eq_true] at hbase ⊢
  obtain ⟨⟨-, htick⟩, hpoll⟩ := hbase
  rw [inRange_natCast]
  exact ⟨fun h => h.1.1, fun h => ⟨⟨h, htick⟩, hpoll⟩⟩

lemma Loaded.sizeFrom?_eq {env : Environment} {c : Config} (h : Loaded env c)
    (hsize : 2 ^ 63 ≤ c.discovery.maxFileSize) :
    sizeFrom? env = some c.discovery.maxFileSize := by
  obtain ⟨base, hbase, rfl⟩ := h.base
  have hover : (base.override env).discovery.maxFileSize =
      (sizeFrom? env).getD base.discovery.maxFileSize := rfl
  cases henv : sizeFrom? env with
  | some n => rw [hover, henv, Option.getD_some]
  | none =>
    simp only [isPrintable, Bool.and_eq_true, inRange_natCast] at hbase
    rw [hover, henv, Option.getD_none] at hsize
    omega

end Config

/-- No variable of the program is set. -/
def Environment.Unset (env : Environment) : Prop :=
  ∀ name, "KTSPEC_".toList <+: name.toList → env.value? name = none

namespace Config

lemma override_of_unset {env : Environment} (henv : env.Unset) (c : Config) :
    c.override env = c := by
  have hnone (name : String) (hname : "KTSPEC_".toList.isPrefixOf name.toList = true) :
      env.value? name = none := henv name (List.isPrefixOf_iff_prefix.mp hname)
  simp [override, hnone "KTSPEC_MAX_FILE_SIZE" (by decide),
    hnone "KTSPEC_DISABLED_STYLES" (by decide), hnone "KTSPEC_GRADLE" (by decide),
    hnone "KTSPEC_LOG" (by decide), hnone "KTSPEC_LOG_FILE" (by decide)]

/-- A loaded configuration is printed as a text that is read back as itself from any file, where no
variable changes it. One with a size of files that TOML has no number for, which only the environment
can give, is printed as the empty text instead, and the defaults are read back. -/
theorem toToml_reads_back_iff {d : Disk} {env : Environment} {c : Config}
    (hloaded : (∃ root, load d env root = .ok c) ∨ ∃ file, ofFile d env file = .ok c)
    {d' : Disk} {env' : Environment} {file' : Path} (henv' : env'.Unset)
    (hstored : d'.readText file' = .ok c.toToml) :
    (ofFile d' env' file' = .ok c ↔ c.discovery.maxFileSize < 2 ^ 63) ∧
      (2 ^ 63 ≤ c.discovery.maxFileSize →
        sizeFrom? env = some c.discovery.maxFileSize ∧ c.toToml = "" ∧
          ofFile d' env' file' = .ok standard) := by
  have h : Loaded env c := by
    rcases hloaded with ⟨root, hload⟩ | ⟨file, hfile⟩
    · exact loaded_of_load hload
    · exact loaded_of_ofFile hfile
  have hback (hsize : c.discovery.maxFileSize < 2 ^ 63) : ofFile d' env' file' = .ok c := by
    rw [ofFile_eq hstored, ofToml?_toToml (h.isPrintable_iff.mpr hsize)]
    simp only [override_of_unset henv', h.valid]
  have hempty (hsize : 2 ^ 63 ≤ c.discovery.maxFileSize) :
      c.toToml = "" ∧ ofFile d' env' file' = .ok standard := by
    have htext : c.toToml = "" := by
      rw [toToml, if_neg fun hprintable => Nat.not_lt.mpr hsize (h.isPrintable_iff.mp hprintable)]
    rw [htext] at hstored
    have hnothing : ofToml? "" = some standard := rfl
    rw [ofFile_eq hstored, hnothing]
    simp only [override_of_unset henv']
    exact ⟨htext, rfl⟩
  refine ⟨⟨fun hread => ?_, hback⟩, fun hsize => ⟨h.sizeFrom?_eq hsize, hempty hsize⟩⟩
  -- the defaults are another configuration, as their size of files is in range
  by_contra hsize
  have hstandard := (hempty (Nat.not_lt.mp hsize)).2
  cases Except.ok.inj (hread.symm.trans hstandard)
  exact hsize (by decide)

/-- A disk with nothing but a configuration file. -/
def diskOf (text : String) : Disk := ⟨[([fileName], .file (Text.toBytes text.toList))], []⟩

lemma entry_fileName (contents : List UInt8) :
    Disk.entry ⟨[([fileName], .file contents)], []⟩ ⟨fileName⟩ = .ok (.file contents) := rfl

lemma readText_diskOf (text : String) : (diskOf text).readText ⟨fileName⟩ = .ok text := by
  simp [diskOf, Disk.readText, Disk.read, entry_fileName, bind, Except.bind, Text.ofBytes?_toBytes]

lemma load_of_nothing {env : Environment} (henv : env.userFile? = none) :
    load ⟨[], []⟩ env ⟨"."⟩ = (standard.override env).validate := by
  have hown : Disk.exists? ⟨[], []⟩ (Path.join ⟨"."⟩ ⟨fileName⟩) = false := by decide
  simp [load, henv, hown]

/-- Texts with quotes, breaks and control characters, which the environment can give, are read
back. -/
theorem toToml_reads_back_of_variables :
    let env : Environment :=
      [("KTSPEC_GRADLE", "gradle\n\"-q\"\u0007"), ("KTSPEC_LOG_FILE", "log'\"\"\"")]
    let c := standard.override env
    load ⟨[], []⟩ env ⟨"."⟩ = .ok c ∧ ofFile (diskOf c.toToml) [] ⟨fileName⟩ = .ok c := by
  intro env c
  have hload : load ⟨[], []⟩ env ⟨"."⟩ = .ok c := load_of_nothing rfl
  exact ⟨hload, (toToml_reads_back_iff (.inl ⟨_, hload⟩) (fun _ _ => rfl)
    (readText_diskOf _)).1.mpr (by decide)⟩

/-- A size of files that TOML has no number for is lost, and so is every other setting. -/
theorem large_size_not_printed :
    let env : Environment :=
      [("KTSPEC_GRADLE", "gradle"), ("KTSPEC_MAX_FILE_SIZE", "9223372036854775808")]
    ∃ c, load ⟨[], []⟩ env ⟨"."⟩ = .ok c ∧ c.toToml = "" ∧
      ofFile (diskOf c.toToml) [] ⟨fileName⟩ = .ok standard ∧ c ≠ standard := by
  intro env
  have htext : (standard.override env).toToml = "" := by decide +kernel
  have hread : ofFile (diskOf "") [] ⟨fileName⟩ = .ok standard := by
    rw [ofFile_eq (readText_diskOf "")]
    rfl
  refine ⟨standard.override env, load_of_nothing rfl, htext, htext ▸ hread, by decide +kernel⟩

end Config

end SpecLens
