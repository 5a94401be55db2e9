import SpecLens.Proofs.Disk.PathName
import SpecLens.Proofs.Project.Grouping
import SpecLens.Proofs.Project.Index

/-!
# Modules of one name

A scan groups files by the names of their modules. The module at the project itself is called like
its directory and every other one by the path that leads down to it, so different modules can come
to have one name. This file tells which ones do, and with that when files share a group.
-/

namespace SpecLens

open Text SpecLens.Path

/-- Two ways down from a project that give modules of one name. -/
inductive AlikeNamed (own : Option String) : List String → List String → Prop where
  /-- A directory in the project that is called like the project. -/
  | inside {name : String} (hown : own = some name) (hplain : '\\' ∉ name.toList) :
    AlikeNamed own [] [name]
  /-- A directory called `\` where the project is the root of the file system. -/
  | backslash (hown : own = none) : AlikeNamed own [] ["\\"]
  /-- Directories whose paths differ only in what is a slash and what a backslash. -/
  | slashes {below below' : List String} (hbelow : below ≠ []) (hbelow' : below' ≠ [])
    (hne : below ≠ below')
    (hparts : (below.flatMap fun name => splitAt '\\' name.toList) =
      below'.flatMap fun name => splitAt '\\' name.toList) : AlikeNamed own below below'

lemma flatMap_splitAt_eq_nil {names : List String} {sep : Char} :
    (names.flatMap fun name => splitAt sep name.toList) = [] ↔ names = [] := by
  cases names with
  | nil => simp
  | cons name names => simp [splitAt_ne_nil]

lemma exists_of_flatMap_splitAt_eq_cons {names : List String} {sep : Char} {part : List Char}
    {parts : List (List Char)}
    (h : (names.flatMap fun name => splitAt sep name.toList) = part :: parts) :
    ∃ first rest more, names = first :: rest ∧ splitAt sep first.toList = part :: more ∧
      more ++ (rest.flatMap fun name => splitAt sep name.toList) = parts := by
  cases names with
  | nil => cases h
  | cons first rest =>
    rw [List.flatMap_cons] at h
    cases hfirst : splitAt sep first.toList with
    | nil => exact absurd hfirst (splitAt_ne_nil _ _)
    | cons part' more =>
      rw [hfirst, List.cons_append, List.cons.injEq] at h
      exact ⟨first, rest, more, rfl, by rw [hfirst, h.1], h.2⟩

/-- Names that are split into a single part are this part. -/
lemma flatMap_splitAt_eq_singleton {names : List String} {sep : Char} {name : String} :
    (names.flatMap fun name => splitAt sep name.toList) = [name.toList] ↔
      names = [name] ∧ sep ∉ name.toList := by
  constructor
  · intro h
    obtain ⟨first, rest, more, rfl, hfirst, hmore⟩ := exists_of_flatMap_splitAt_eq_cons h
    rw [List.append_eq_nil_iff, flatMap_splitAt_eq_nil] at hmore
    obtain ⟨rfl, rfl⟩ := hmore
    have htext : first.toList = name.toList := by
      rw [← intercalate_splitAt sep first.toList, hfirst, List.intercalate_singleton]
    exact ⟨by rw [String.toList_inj.mp htext], not_mem_of_mem_splitAt (by rw [hfirst]; simp)⟩
  · rintro ⟨rfl, hsep⟩
    simp [splitAt_of_not_mem hsep]

lemma flatMap_splitAt_eq_blanks {names : List String} (h : ∀ n ∈ names, IsName n) :
    (names.flatMap fun name => splitAt '\\' name.toList) = [[], []] ↔ names = ["\\"] := by
  constructor
  · intro hblanks
    obtain ⟨first, rest, more, rfl, hfirst, hmore⟩ := exists_of_flatMap_splitAt_eq_cons hblanks
    have htext := intercalate_splitAt '\\' first.toList
    rw [hfirst] at htext
    cases more with
    | nil =>
      -- No part but an empty one: the name would be empty.
      rw [List.intercalate_singleton] at htext
      have hempty : first = "" := String.toList_inj.mp htext.symm
      exact absurd (h first (by simp)).1 (by simp [hempty])
    | cons part more =>
      rw [List.cons_append, List.cons.injEq, List.append_eq_nil_iff,
        flatMap_splitAt_eq_nil] at hmore
      obtain ⟨rfl, rfl, rfl⟩ := hmore
      have hfirst : first = "\\" := String.toList_inj.mp htext.symm
      rw [hfirst]
  · rintro rfl
    decide

namespace Module

/-- A character of a path as it stands in the name of a module. -/
def slashed (c : Char) : Char := if c = '\\' then '/' else c

lemma splitAt_map_slashed {part : List Char} (h : '/' ∉ part) :
    splitAt '/' (part.map slashed) = splitAt '\\' part := by
  induction part with
  | nil => rfl
  | cons c part ih =>
    simp only [List.mem_cons, not_or] at h
    rw [List.map_cons, splitAt, splitAt, ih h.2, slashed]
    by_cases hc : c = '\\'
    · simp [hc]
    · simp [hc, Ne.symm h.1]

variable {base below below' : List String}

lemma name_rootedAt_self (h : ∀ n ∈ base, IsName n) :
    (rootedAt (ofNames base) (ofNames base)).name = base.getLast?.getD "/" := by
  have hrelative : (ofNames base).relativeTo? (ofNames base) = some ⟨""⟩ := by
    simpa using @relativeTo?_ofNames base [] (by simpa using h)
  simp only [rootedAt, hrelative, fileName?_ofNames h]
  cases base with
  | nil => rfl
  | cons name base => simp [List.getLast?_cons]

lemma splitAt_map_intercalate {parts : List (List Char)} (hne : parts ≠ [])
    (h : ∀ part ∈ parts, '/' ∉ part) :
    splitAt '/' ((['/'].intercalate parts).map slashed) = parts.flatMap (splitAt '\\') := by
  induction parts with
  | nil => exact absurd rfl hne
  | cons part parts ih =>
    rw [List.forall_mem_cons] at h
    cases parts with
    | nil => simp [splitAt_map_slashed h.1]
    | cons next parts =>
      have hslash : slashed '/' = '/' := by decide
      rw [List.intercalate_cons_cons, List.append_assoc, List.map_append, List.singleton_append,
        List.map_cons, hslash, splitAt_append, splitAt_map_slashed h.1, ih (by simp) h.2,
        ← List.flatMap_cons]

/-- The parts of the name of a module below the project are those of the names that lead down to
it. -/
lemma splitAt_name_rootedAt (h : ∀ n ∈ base ++ below, IsName n) (hne : below ≠ []) :
    splitAt '/' (rootedAt (ofNames base) (ofNames (base ++ below))).name.toList =
      below.flatMap fun name => splitAt '\\' name.toList := by
  have hbelow := (List.forall_mem_append.mp h).2
  have hempty : ("/".intercalate below).isEmpty = false := by
    rw [Bool.eq_false_iff, ne_eq, String.isEmpty_iff]
    intro hempty
    have hnames := splitAt_names hbelow hne
    rw [show ['/'] = "/".toList from rfl, ← String.toList_intercalate, hempty] at hnames
    obtain ⟨name, hname, hnil⟩ := List.mem_map.mp
      (hnames ▸ List.mem_singleton_self [] : [] ∈ below.map String.toList)
    have hname' : name = "" := by simpa using hnil
    exact (hbelow name hname).1 (by simp [hname'])
  have hslash : ∀ part ∈ below.map String.toList, '/' ∉ part := by
    intro part hpart
    obtain ⟨name, hname, rfl⟩ := List.mem_map.mp hpart
    exact (hbelow name hname).2
  simp only [rootedAt, relativeTo?_ofNames h, hempty, Bool.false_eq_true, if_false,
    String.toList_ofList, String.toList_intercalate]
  rw [← List.flatMap_map]
  exact splitAt_map_intercalate (by simpa using hne) hslash

lemma name_rootedAt_ne_empty (hbase : ∀ n ∈ base, IsName n) (hbelow : ∀ n ∈ below, IsName n) :
    (rootedAt (ofNames base) (ofNames (base ++ below))).name ≠ "" := by
  intro hempty
  by_cases hnil : below = []
  · rw [hnil, List.append_nil, name_rootedAt_self hbase] at hempty
    cases hown : base.getLast? with
    | none => simp [hown] at hempty
    | some name =>
      rw [hown, Option.getD_some] at hempty
      exact (hbase name (List.mem_of_getLast? hown)).1 (by simp [hempty])
  · have hparts := splitAt_name_rootedAt (List.forall_mem_append.mpr ⟨hbase, hbelow⟩) hnil
    rw [hempty] at hparts
    rw [(@flatMap_splitAt_eq_singleton _ _ "").mp hparts.symm |>.1] at hbelow
    exact (hbelow "" (by simp)).1 (by simp)

lemma name_eq_own_iff (h : ∀ n ∈ base ++ below, IsName n) (hne : below ≠ []) :
    (rootedAt (ofNames base) (ofNames base)).name =
        (rootedAt (ofNames base) (ofNames (base ++ below))).name ↔
      AlikeNamed base.getLast? [] below := by
  obtain ⟨hbase, hbelow⟩ := List.forall_mem_append.mp h
  rw [name_rootedAt_self hbase, ← String.toList_inj, ← @splitAt_inj '/',
    splitAt_name_rootedAt h hne]
  constructor
  · intro hname
    cases hown : base.getLast? with
    | none =>
      rw [hown] at hname
      rw [(flatMap_splitAt_eq_blanks hbelow).mp hname.symm]
      exact .backslash rfl
    | some name =>
      have hslash : '/' ∉ name.toList := (hbase name (List.mem_of_getLast? hown)).2
      rw [hown, Option.getD_some, splitAt_of_not_mem hslash] at hname
      obtain ⟨rfl, hplain⟩ := flatMap_splitAt_eq_singleton.mp hname.symm
      exact .inside rfl hplain
  · intro halike
    cases halike with
    | inside hown hplain =>
      have hslash := (hbase _ (List.mem_of_getLast? hown)).2
      rw [hown, Option.getD_some, splitAt_of_not_mem hslash]
      exact (flatMap_splitAt_eq_singleton.mpr ⟨rfl, hplain⟩).symm
    | backslash hown =>
      rw [hown]
      decide
    | slashes hnil => exact absurd rfl hnil

/-- Modules of a project have one name just if the ways down to them are the same or alike. -/
lemma name_rootedAt_eq_iff (hbase : ∀ n ∈ base, IsName n) (hbelow : ∀ n ∈ below, IsName n)
    (hbelow' : ∀ n ∈ below', IsName n) :
    (rootedAt (ofNames base) (ofNames (base ++ below))).name =
        (rootedAt (ofNames base) (ofNames (base ++ below'))).name ↔
      below = below' ∨ AlikeNamed base.getLast? below below' ∨
        AlikeNamed base.getLast? below' below := by
  have hnames := List.forall_mem_append.mpr ⟨hbase, hbelow⟩
  have hnames' := List.forall_mem_append.mpr ⟨hbase, hbelow'⟩
  by_cases hnil : below = [] <;> by_cases hnil' : below' = []
  · simp [hnil, hnil']
  · subst hnil
    have hother : ¬AlikeNamed base.getLast? below' [] := by
      rintro (_ | _ | ⟨-, hnil, -⟩)
      exact hnil rfl
    rw [List.append_nil, name_eq_own_iff hnames' hnil']
    simp [hother, Ne.symm hnil']
  · subst hnil'
    have hother : ¬AlikeNamed base.getLast? below [] := by
      rintro (_ | _ | ⟨-, hnil, -⟩)
      exact hnil rfl
    rw [List.append_nil, eq_comm, name_eq_own_iff hnames hnil]
    simp [hother, hnil]
  · rw [← String.toList_inj, ← @splitAt_inj '/', splitAt_name_rootedAt hnames hnil,
      splitAt_name_rootedAt hnames' hnil']
    constructor
    · intro hparts
      by_cases heq : below = below'
      · exact .inl heq
      · exact .inr (.inl (.slashes hnil hnil' heq hparts))
    · rintro (rfl | halike | halike)
      · rfl
      · cases halike with
        | inside | backslash => exact absurd rfl hnil
        | slashes _ _ _ hparts => exact hparts
      · cases halike with
        | inside | backslash => exact absurd rfl hnil'
        | slashes _ _ _ hparts => exact hparts.symm

end Module

/-! ### Modules of a project -/

/-- Whether a module stands where the given names lead from a project. -/
def Module.LiesAt (m : Module) (p : Project) (below : List String) : Prop :=
  m.root.components = p.root.components ++ below.map .name

lemma Module.LiesAt.inj {m m' : Module} {p : Project} {below below' : List String}
    (h : m.LiesAt p below) (h' : m'.LiesAt p below') (hroot : m.root = m'.root) :
    below = below' := by
  have hcomponents := h.symm.trans ((congrArg components hroot).trans h')
  exact List.map_injective_iff.mpr (fun _ _ => Component.name.inj)
    (List.append_cancel_left hcomponents)

lemma AlikeNamed.ne {own : Option String} {below below' : List String}
    (h : AlikeNamed own below below') : below ≠ below' := by
  cases h with
  | inside | backslash => simp
  | slashes _ _ hne => exact hne

namespace Project

variable {w : World} {config : DiscoveryConfig} {path : Path} {p : Project} {m m' : Module}

/-- Two modules of a project, in directories whose modules get one name. -/
def Namesakes (p : Project) (m m' : Module) : Prop :=
  ∃ below below', m.LiesAt p below ∧ m'.LiesAt p below' ∧
    (AlikeNamed p.root.fileName? below below' ∨ AlikeNamed p.root.fileName? below' below)

lemma Namesakes.ne (h : p.Namesakes m m') : m ≠ m' := by
  obtain ⟨below, below', hm, hm', halike⟩ := h
  intro heq
  have hsame : below = below' := hm.inj hm' (congrArg Module.root heq)
  rcases halike with halike | halike
  · exact halike.ne hsame
  · exact halike.ne hsame.symm

/-- The modules of the project at some names, in the order in which they are met. -/
def met (w : World) (config : DiscoveryConfig) (names : List String) : List Module :=
  let directories := ((w.disk.walk w.environment config.excludeDirs names).map Path.ofNames).filter
    w.disk.isDirectory
  let found := (directories.filter (Module.isMarked w.disk config.moduleMarkers)).map
    (.rootedAt (.ofNames names))
  if found.isEmpty then [.rootedAt (.ofNames names) (.ofNames names)] else found

lemma load_eq_ok_iff : load w config path = .ok p ↔ ∃ names, w.disk.resolve path = .ok names ∧
    p = ⟨.ofNames names, (met w config names).mergeSort fun a b => a.root.le b.root, config⟩ := by
  unfold load
  cases w.disk.resolve path with
  | error e => simp [mapError_error, bind, Except.bind]
  | ok names =>
    simp only [mapError_ok, bind, Except.bind, Except.ok.injEq, exists_eq_left']
    exact eq_comm

lemma load_of_met {names : List String} {modules : List Module}
    (hresolve : w.disk.resolve path = .ok names) (hmet : met w config names = modules)
    (hsorted : modules.Pairwise fun a b => a.root.le b.root = true) :
    load w config path = .ok ⟨.ofNames names, modules, config⟩ := by
  refine load_eq_ok_iff.mpr ⟨names, hresolve, ?_⟩
  rw [hmet, List.mergeSort_of_pairwise hsorted]

/-- The modules of a project lie below it. -/
lemma exists_base_of_load (h : load w config path = .ok p) (hdisk : w.disk.WellNamed) :
    ∃ base, (∀ n ∈ base, IsName n) ∧ p.root = ofNames base ∧ ∀ m ∈ p.modules, ∃ below,
      (∀ n ∈ below, IsName n) ∧ m = .rootedAt (ofNames base) (ofNames (base ++ below)) := by
  obtain ⟨base, hresolve, rfl⟩ := load_eq_ok_iff.mp h
  refine ⟨base, hdisk.resolve hresolve, rfl, fun m hm => ?_⟩
  rw [List.mem_mergeSort, met] at hm
  split at hm
  · exact ⟨[], by simpa using hm⟩
  · obtain ⟨root, hroot, rfl⟩ := List.mem_map.mp hm
    obtain ⟨names, hwalk, rfl⟩ := List.mem_map.mp
      (List.mem_of_mem_filter (List.mem_of_mem_filter hroot))
    obtain ⟨below, rfl, hbelow⟩ := hdisk.walk hwalk
    exact ⟨below, hbelow, rfl⟩

/-- The different modules of one name are the namesakes. -/
lemma namesakes_iff (h : load w config path = .ok p) (hdisk : w.disk.WellNamed)
    (hm : m ∈ p.modules) (hm' : m' ∈ p.modules) :
    p.Namesakes m m' ↔ m ≠ m' ∧ m.name = m'.name := by
  obtain ⟨base, hbase, hroot, hmodules⟩ := exists_base_of_load h hdisk
  have hlies (below : List String) (hbelow : ∀ n ∈ below, IsName n) :
      (Module.rootedAt (ofNames base) (ofNames (base ++ below))).LiesAt p below := by
    have hnames := List.forall_mem_append.mpr ⟨hbase, hbelow⟩
    simp [Module.LiesAt, Module.rootedAt, hroot, components_ofNames hbase,
      components_ofNames hnames]
  obtain ⟨below, hbelow, rfl⟩ := hmodules m hm
  obtain ⟨below', hbelow', rfl⟩ := hmodules m' hm'
  have hown : p.root.fileName? = base.getLast? := by rw [hroot, fileName?_ofNames hbase]
  rw [Module.name_rootedAt_eq_iff hbase hbelow hbelow', ← hown]
  constructor
  · intro hnamesakes
    refine ⟨hnamesakes.ne, .inr ?_⟩
    obtain ⟨a, b, ha, hb, halike⟩ := hnamesakes
    rwa [ha.inj (hlies below hbelow) rfl, hb.inj (hlies below' hbelow') rfl] at halike
  · rintro ⟨hne, rfl | halike⟩
    · exact absurd rfl hne
    · exact ⟨below, below', hlies below hbelow, hlies below' hbelow', halike⟩

lemma name_ne_empty (h : load w config path = .ok p) (hdisk : w.disk.WellNamed)
    (hm : m ∈ p.modules) : m.name ≠ "" := by
  obtain ⟨base, hbase, -, hmodules⟩ := exists_base_of_load h hdisk
  obtain ⟨below, hbelow, rfl⟩ := hmodules m hm
  exact Module.name_rootedAt_ne_empty hbase hbelow

end Project

namespace ProjectIndex

variable {w : World} {config : DiscoveryConfig} {path : Path} {p : Project} {d : Discovery}
  {e e' : IndexedFile}

/-- Whether two files of a scan share a group. -/
def SameGroup (i : ProjectIndex) (e e' : IndexedFile) : Prop :=
  ∃ group ∈ i.byModule, e ∈ group.2 ∧ e' ∈ group.2

lemma sameGroup_iff_module {i : ProjectIndex} (he : e ∈ i.files) (he' : e' ∈ i.files) :
    i.SameGroup e e' ↔ e.module = e'.module := by
  constructor
  · rintro ⟨group, hgroup, hmem, hmem'⟩
    rw [(mem_byModule.mp hgroup).2, List.mem_filter, decide_eq_true_iff] at hmem hmem'
    rw [hmem.2, hmem'.2]
  · intro hmodule
    have hmem : e ∈ i.files.filter (·.module = e.module) := by simpa using he
    have hmem' : e' ∈ i.files.filter (·.module = e.module) := by simpa [hmodule] using he'
    exact ⟨(e.module, _), mem_byModule.mpr ⟨List.ne_nil_of_mem hmem, rfl⟩, hmem, hmem'⟩

lemma module_of_mem_files (he : e ∈ (scan p d w).files) :
    e.module = ((p.moduleOf? w.disk e.path).map (·.name)).getD "" := by
  obtain ⟨file, -, hindexed⟩ := List.mem_filterMap.mp he
  obtain ⟨rfl, -, -, hmodule⟩ := indexed?_eq_some hindexed
  exact hmodule

lemma exists_mem_files {file : Path} (hwalked : file ∈ p.walked w)
    (hscanned : p.isScanned w.disk file = true) (hindexed : (indexed? p d w file).isSome = true) :
    ∃ e ∈ (scan p d w).files, e.path = file := by
  obtain ⟨e, he⟩ := Option.isSome_iff_exists.mp hindexed
  have hsource : file ∈ p.sourceFiles w := mem_sourceFiles.mpr ⟨hwalked, hscanned⟩
  exact ⟨e, List.mem_filterMap.mpr ⟨file, hsource, he⟩, (indexed?_eq_some he).1⟩

/-- Different modules of a project have one name just if they are namesakes. Two files of a scan
share a group just if their innermost modules are the same or namesakes. -/
theorem sameGroup_iff (h : Project.load w config path = .ok p) (hdisk : w.disk.WellNamed)
    (d : Discovery) :
    (∀ m ∈ p.modules, ∀ m' ∈ p.modules, m ≠ m' ∧ m.name = m'.name ↔ p.Namesakes m m') ∧
    ∀ e ∈ (scan p d w).files, ∀ e' ∈ (scan p d w).files,
      ((scan p d w).SameGroup e e' ↔
        p.moduleOf? w.disk e.path = p.moduleOf? w.disk e'.path ∨
          ∃ m m', p.moduleOf? w.disk e.path = some m ∧ p.moduleOf? w.disk e'.path = some m' ∧
            p.Namesakes m m') := by
  refine ⟨fun m hm m' hm' => (Project.namesakes_iff h hdisk hm hm').symm, fun e he e' he' => ?_⟩
  rw [sameGroup_iff_module he he', module_of_mem_files he, module_of_mem_files he']
  cases hmodule : p.moduleOf? w.disk e.path with
  | none =>
    cases hmodule' : p.moduleOf? w.disk e'.path with
    | none => simp
    | some m' =>
      have hname := Project.name_ne_empty h hdisk (Project.isInnermost_of_moduleOf? hmodule').1
      simp [Ne.symm hname]
  | some m =>
    have hm : m ∈ p.modules := (Project.isInnermost_of_moduleOf? hmodule).1
    cases hmodule' : p.moduleOf? w.disk e'.path with
    | none =>
      have hname := Project.name_ne_empty h hdisk hm
      simp [hname]
    | some m' =>
      have hm' : m' ∈ p.modules := (Project.isInnermost_of_moduleOf? hmodule').1
      by_cases heq : m = m'
      · simp [heq]
      · simp [Project.namesakes_iff h hdisk hm hm', heq]

/-- A project called `p` with a directory `p` in it, each of the two with a build file and a spec. -/
def namesakeWorld : World where
  disk := ⟨[(["p"], .directory), (["p", "build.gradle"], .file []),
    (["p", "S.kt"], .file (Text.toBytes hiddenTest.chars)), (["p", "p"], .directory),
    (["p", "p", "build.gradle"], .file []),
    (["p", "p", "T.kt"], .file (Text.toBytes hiddenTest.chars))], []⟩
  environment := []
  grammar _ := hiddenTest.root

def namesakeProject : Project := ⟨⟨"/p"⟩, [⟨"p", ⟨"/p"⟩⟩, ⟨"p", ⟨"/p/p"⟩⟩], .standard⟩

lemma load_namesakeProject :
    Project.load namesakeWorld .standard ⟨"/p"⟩ = .ok namesakeProject := by
  have hresolve : namesakeWorld.disk.resolve ⟨"/p"⟩ = .ok ["p"] := by
    decide
  have hmet : Project.met namesakeWorld .standard ["p"] = namesakeProject.modules := by
    decide
  exact Project.load_of_met hresolve hmet (by decide)

def namesakeScan : ProjectIndex :=
  scan namesakeProject (.ofConfig .standard) namesakeWorld

lemma exists_entry_in {file : Path} {m : Module}
    (hwalked : file ∈ namesakeProject.walked namesakeWorld)
    (hscanned : namesakeProject.isScanned namesakeWorld.disk file = true)
    (hentry : namesakeWorld.disk.entry file = .ok (.file (Text.toBytes hiddenTest.chars)))
    (hmodule : namesakeProject.moduleOf? namesakeWorld.disk file = some m) :
    ∃ e ∈ namesakeScan.files, namesakeProject.moduleOf? namesakeWorld.disk e.path = some m := by
  have hsource : DiscoveryConfig.standard.isSource file = true := by
    simp only [Project.isScanned, Bool.and_eq_true] at hscanned
    exact hscanned.1.2
  obtain ⟨e, he, rfl⟩ := exists_mem_files hwalked hscanned
    (isSome_indexed?_of_hiddenTest (fun _ => rfl) hsource hentry)
  exact ⟨e, he, hmodule⟩

/-- The two modules are namesakes. -/
theorem namesakeProject_namesakes :
    Project.load namesakeWorld .standard ⟨"/p"⟩ = .ok namesakeProject ∧
      namesakeWorld.disk.WellNamed ∧
      namesakeProject.Namesakes ⟨"p", ⟨"/p"⟩⟩ ⟨"p", ⟨"/p/p"⟩⟩ := by
  have hdisk : namesakeWorld.disk.WellNamed := ⟨by decide +kernel, by decide +kernel⟩
  obtain ⟨hnames, -⟩ := sameGroup_iff load_namesakeProject hdisk (.ofConfig .standard)
  refine ⟨load_namesakeProject, hdisk, ?_⟩
  exact (hnames ⟨"p", ⟨"/p"⟩⟩ (by decide) ⟨"p", ⟨"/p/p"⟩⟩ (by decide)).mp ⟨by decide, rfl⟩

/-- Files with different innermost modules share a group. -/
theorem namesake_files_share_group :
    Project.load namesakeWorld .standard ⟨"/p"⟩ = .ok namesakeProject ∧
    ∃ e ∈ namesakeScan.files, ∃ e' ∈ namesakeScan.files,
      namesakeProject.moduleOf? namesakeWorld.disk e.path = some ⟨"p", ⟨"/p"⟩⟩ ∧
      namesakeProject.moduleOf? namesakeWorld.disk e'.path = some ⟨"p", ⟨"/p/p"⟩⟩ ∧
      namesakeScan.SameGroup e e' := by
  have houter : ⟨"/p/S.kt"⟩ ∈ namesakeProject.walked namesakeWorld := by
    decide +kernel
  have hinner : ⟨"/p/p/T.kt"⟩ ∈ namesakeProject.walked namesakeWorld := by
    decide +kernel
  obtain ⟨e, he, hmodule⟩ := exists_entry_in houter (m := ⟨"p", ⟨"/p"⟩⟩)
    (by decide +kernel) (by decide +kernel) (by decide +kernel)
  obtain ⟨e', he', hmodule'⟩ := exists_entry_in hinner (m := ⟨"p", ⟨"/p/p"⟩⟩)
    (by decide +kernel) (by decide +kernel) (by decide +kernel)
  refine ⟨load_namesakeProject, e, he, e', he', hmodule, hmodule', ?_⟩
  rw [sameGroup_iff_module he he', module_of_mem_files he, module_of_mem_files he', hmodule,
    hmodule']
  rfl

end ProjectIndex

end SpecLens
