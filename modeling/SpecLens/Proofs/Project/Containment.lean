import SpecLens.Proofs.Project.ModuleName

/-!
# Files in modules

Modules may stand in one another. Those around a file are comparable, since the root of each is the
file itself or above it, and the deepest of them is the module of the file. What counts are the
components of the paths: a directory `app2` is not in a module `app`.
-/

namespace SpecLens

open Text SpecLens.Path

namespace Path

variable {p base base' : Path}

/-- Whether a path is another one or lies below it. -/
def IsWithin (p base : Path) : Prop := base.components <+: p.components

/-- Whether a path stands above another one. -/
def IsAbove (p q : Path) : Prop := q.IsWithin p ∧ p.components ≠ q.components

lemma startsWith_iff : p.startsWith base = true ↔ p.IsWithin base := List.isPrefixOf_iff_prefix

/-- Of two paths around a third one, the one that is not shorter lies within the other. -/
lemma IsWithin.of_length_le (h : p.IsWithin base) (h' : p.IsWithin base')
    (hle : base.components.length ≤ base'.components.length) : base'.IsWithin base :=
  List.prefix_of_prefix_length_le h h' hle

lemma not_isWithin_sibling {parent below : List Component} {name suffix : String}
    (hbase : base.components = parent ++ [.name name]) (hsuffix : suffix ≠ "")
    (hp : p.components = parent ++ .name (name ++ suffix) :: below) : ¬p.IsWithin base := by
  intro h
  rw [IsWithin, hbase, hp, List.prefix_append_right_inj, List.cons_prefix_cons] at h
  have hname : name.toList = name.toList ++ suffix.toList := by
    rw [← String.toList_append, ← Component.name.inj h.1]
  exact hsuffix (by simpa using hname)

/-- A name in a directory is the last segment of its path. -/
lemma exists_segments_join (directory : Path) {name : String} (h : IsName name) :
    ∃ before, (directory.join ⟨name⟩).segments = before ++ [name.toList] := by
  have hname : splitAt '/' name.toList = [name.toList] := splitAt_of_not_mem h.2
  have hrelative : (⟨name⟩ : Path).isAbsolute = false := by
    rw [Bool.eq_false_iff, isAbsolute, ne_eq, beq_iff_eq]
    exact fun hslash => h.2 (List.mem_of_head? hslash)
  unfold join segments
  split
  · exact ⟨[], hname⟩
  · split
    · rename_i hslash
      obtain ⟨before, hbefore⟩ := List.getLast?_eq_some_iff.mp (beq_iff_eq.mp hslash)
      refine ⟨splitAt '/' before, ?_⟩
      rw [String.toList_append, hbefore, List.append_assoc, List.singleton_append, splitAt_append,
        hname]
    · refine ⟨splitAt '/' directory.text.toList, ?_⟩
      have htext : (directory.text ++ "/" ++ name).toList =
          directory.text.toList ++ '/' :: name.toList := by simp
      rw [htext, splitAt_append, hname]

end Path

/-- A file that is found under a name in a directory is an entry of this name. -/
lemma Disk.exists_entry_of_isFile_join {d : Disk} {directory : Path} {name : String}
    (hname : IsName name) (h : d.isFile (directory.join ⟨name⟩) = true) :
    ∃ e ∈ d.entries, e.1.getLast? = some name := by
  obtain ⟨contents, hread⟩ := exists_read_of_isFile h
  obtain ⟨-, names, hfollow, hfind⟩ := read_eq_ok hread
  obtain ⟨start, -, hnames, -⟩ := follow_eq_ok hfollow
  obtain ⟨before, hbefore⟩ := exists_segments_join directory hname
  refine ⟨(names, .file contents), mem_entries_of_find? hfind, ?_⟩
  rw [hnames, hbefore, List.foldl_append, List.foldl_cons, List.foldl_nil, lead, hname.component?]
  exact List.getLast?_concat

lemma Module.isMarked_eq_false {d : Disk} {markers : List String} (hmarkers : ∀ m ∈ markers, IsName m)
    (h : ∀ e ∈ d.entries, ∀ m ∈ markers, e.1.getLast? ≠ some m) (directory : Path) :
    Module.isMarked d markers directory = false := by
  rw [isMarked, List.any_eq_false]
  intro m hm hfile
  obtain ⟨e, he, hlast⟩ := Disk.exists_entry_of_isFile_join (hmarkers m hm) hfile
  exact h e he m hm hlast

namespace Project

variable {w : World} {config : DiscoveryConfig} {path file real : Path} {p : Project} {d : Disk}
  {m m' : Module}

/-- The modules of a project are told apart by the components of their roots. -/
lemma eq_of_components (h : load w config path = .ok p) (hdisk : w.disk.WellNamed)
    (hm : m ∈ p.modules) (hm' : m' ∈ p.modules)
    (hroot : m.root.components = m'.root.components) : m = m' := by
  obtain ⟨base, hbase, -, hmodules⟩ := exists_base_of_load h hdisk
  obtain ⟨below, hbelow, rfl⟩ := hmodules m hm
  obtain ⟨below', hbelow', rfl⟩ := hmodules m' hm'
  rw [Module.rootedAt, Module.rootedAt,
    components_ofNames (List.forall_mem_append.mpr ⟨hbase, hbelow⟩),
    components_ofNames (List.forall_mem_append.mpr ⟨hbase, hbelow'⟩), List.cons.injEq] at hroot
  have hnames : base ++ below = base ++ below' :=
    List.map_injective_iff.mpr (fun _ _ => Component.name.inj) hroot.2
  rw [hnames]

/-- A project without build files is its only module. -/
lemma modules_of_unmarked (h : load w config path = .ok p) (hdisk : w.disk.WellNamed)
    (hbare : ∀ directory : Path, directory.IsWithin p.root →
      Module.isMarked w.disk config.moduleMarkers directory = false) :
    p.modules = [.rootedAt p.root p.root] := by
  obtain ⟨base, hresolve, rfl⟩ := load_eq_ok_iff.mp h
  have hbase := hdisk.resolve hresolve
  have hfound : (((w.disk.walk w.environment config.excludeDirs base).map ofNames).filter
      w.disk.isDirectory).filter (Module.isMarked w.disk config.moduleMarkers) = [] := by
    refine List.filter_eq_nil_iff.mpr fun directory hdirectory => ?_
    obtain ⟨names, hwalk, rfl⟩ := List.mem_map.mp (List.mem_of_mem_filter hdirectory)
    obtain ⟨below, rfl, hbelow⟩ := hdisk.walk hwalk
    have hwithin : (ofNames (base ++ below)).IsWithin (ofNames base) := by
      rw [IsWithin, components_ofNames hbase,
        components_ofNames (List.forall_mem_append.mpr ⟨hbase, hbelow⟩), List.map_append]
      exact List.prefix_append _ _
    simp [hbare _ hwithin]
  have hmet : met w config base = [.rootedAt (ofNames base) (ofNames base)] := by
    simp only [met, hfound, List.map_nil, List.isEmpty_nil, if_true]
  rw [hmet, List.mergeSort_singleton]

lemma contains_iff (hreal : d.canonical file = .ok real) :
    m.Contains d file ↔ real.IsWithin m.root := by
  simp [Module.Contains, hreal, startsWith_iff]

lemma isSome_moduleOf?_iff (hreal : d.canonical file = .ok real) :
    (p.moduleOf? d file).isSome = true ↔ ∃ m ∈ p.modules, real.IsWithin m.root := by
  rcases p.moduleOf?_cases d file with ⟨hnone, hout⟩ | ⟨m, hsome, hm, hcontains, -⟩
  · rw [hnone]
    refine iff_of_false (by simp) ?_
    rintro ⟨m, hm, hwithin⟩
    exact hout m hm ((contains_iff hreal).mpr hwithin)
  · rw [hsome]
    exact iff_of_true rfl ⟨m, hm, (contains_iff hreal).mp hcontains⟩

/-- The other modules around a file are above an innermost one. -/
lemma isAbove_of_isInnermost (h : load w config path = .ok p) (hdisk : w.disk.WellNamed)
    (hreal : d.canonical file = .ok real) (hinner : p.IsInnermost d file m) (hm' : m' ∈ p.modules)
    (hne : m' ≠ m) (hwithin : real.IsWithin m'.root) : m'.root.IsAbove m.root := by
  obtain ⟨hm, hcontains, hdeepest⟩ := hinner
  have hle : m'.depth ≤ m.depth := hdeepest m' hm' ((contains_iff hreal).mpr hwithin)
  refine ⟨hwithin.of_length_le ((contains_iff hreal).mp hcontains) hle, fun hroot => ?_⟩
  exact hne (eq_of_components h hdisk hm' hm hroot)

/-- The module of a file is the innermost one around it. A file has one if it is the root of a
module or below one, and all other modules around it are above that. Without build files it is the
project. A directory whose name starts with that of a module is not in this module. -/
theorem moduleOf?_innermost (h : load w config path = .ok p) (hdisk : w.disk.WellNamed)
    (hreal : d.canonical file = .ok real) :
    ((p.moduleOf? d file).isSome = true ↔ ∃ m ∈ p.modules, real.IsWithin m.root) ∧
    (∀ m, p.moduleOf? d file = some m → m ∈ p.modules ∧ real.IsWithin m.root ∧
      ∀ m' ∈ p.modules, m' ≠ m → real.IsWithin m'.root → m'.root.IsAbove m.root) ∧
    ((∀ directory : Path, directory.IsWithin p.root →
        Module.isMarked w.disk config.moduleMarkers directory = false) →
      real.IsWithin p.root → p.moduleOf? d file = some (.rootedAt p.root p.root)) ∧
    ∀ m parent name suffix below, m.root.components = parent ++ [.name name] → suffix ≠ "" →
      real.components = parent ++ .name (name ++ suffix) :: below → p.moduleOf? d file ≠ some m := by
  refine ⟨isSome_moduleOf?_iff hreal, fun m hmodule => ?_, fun hbare hwithin => ?_, ?_⟩
  · have hinner := isInnermost_of_moduleOf? hmodule
    exact ⟨hinner.1, (contains_iff hreal).mp hinner.2.1, fun m' hm' hne hwithin =>
      isAbove_of_isInnermost h hdisk hreal hinner hm' hne hwithin⟩
  · have hmodules := modules_of_unmarked h hdisk hbare
    have hsome : (p.moduleOf? d file).isSome = true := by
      rw [isSome_moduleOf?_iff hreal, hmodules]
      exact ⟨_, List.mem_singleton_self _, hwithin⟩
    obtain ⟨m, hmodule⟩ := Option.isSome_iff_exists.mp hsome
    have hm : m ∈ p.modules := (isInnermost_of_moduleOf? hmodule).1
    rw [hmodules, List.mem_singleton] at hm
    rw [hmodule, hm]
  · intro m parent name suffix below hroot hsuffix hfile hmodule
    have hcontains := (isInnermost_of_moduleOf? hmodule).2.1
    exact not_isWithin_sibling hroot hsuffix hfile ((contains_iff hreal).mp hcontains)

/-- A project with a module `app` in it and a directory `app2` beside that. -/
def siblingWorld : World where
  disk := ⟨[(["p"], .directory), (["p", "pom.xml"], .file []), (["p", "app"], .directory),
    (["p", "app", "pom.xml"], .file []), (["p", "app2"], .directory),
    (["p", "app2", "S.kt"], .file [])], []⟩
  environment := []
  grammar _ := default

def siblingProject : Project :=
  ⟨⟨"/p"⟩, [⟨"p", ⟨"/p"⟩⟩, ⟨"app", ⟨"/p/app"⟩⟩], .standard⟩

/-- A project without a build file. -/
def bareWorld : World where
  disk := ⟨[(["p"], .directory), (["p", "app"], .directory), (["p", "app", "S.kt"], .file [])], []⟩
  environment := []
  grammar _ := default

def bareProject : Project := ⟨⟨"/p"⟩, [⟨"p", ⟨"/p"⟩⟩], .standard⟩

lemma load_siblingProject : load siblingWorld .standard ⟨"/p"⟩ = .ok siblingProject := by
  have hresolve : siblingWorld.disk.resolve ⟨"/p"⟩ = .ok ["p"] := by
    decide
  have hmet : met siblingWorld .standard ["p"] = siblingProject.modules := by
    decide
  exact load_of_met hresolve hmet (by decide)

lemma load_bareProject : load bareWorld .standard ⟨"/p"⟩ = .ok bareProject := by
  have hresolve : bareWorld.disk.resolve ⟨"/p"⟩ = .ok ["p"] := by
    decide
  have hmet : met bareWorld .standard ["p"] = bareProject.modules := by
    decide
  exact load_of_met hresolve hmet (by decide)

/-- The file in `app2` is of the module around `app`, and in the project without build files all is
of the project. -/
theorem module_beside_namesake :
    load siblingWorld .standard ⟨"/p"⟩ = .ok siblingProject ∧ siblingWorld.disk.WellNamed ∧
      siblingWorld.disk.canonical ⟨"/p/app2/S.kt"⟩ = .ok ⟨"/p/app2/S.kt"⟩ ∧
      siblingProject.moduleOf? siblingWorld.disk ⟨"/p/app2/S.kt"⟩ = some ⟨"p", ⟨"/p"⟩⟩ ∧
      load bareWorld .standard ⟨"/p"⟩ = .ok bareProject ∧
      bareProject.moduleOf? bareWorld.disk ⟨"/p/app/S.kt"⟩ = some ⟨"p", ⟨"/p"⟩⟩ := by
  have hdisk : siblingWorld.disk.WellNamed := ⟨by decide +kernel, by decide +kernel⟩
  have hreal : siblingWorld.disk.canonical ⟨"/p/app2/S.kt"⟩ = .ok ⟨"/p/app2/S.kt"⟩ := by
    decide
  obtain ⟨hsome, hmodule, -, hbeside⟩ := moduleOf?_innermost load_siblingProject hdisk hreal
  obtain ⟨m, hm⟩ := Option.isSome_iff_exists.mp
    (hsome.mpr ⟨⟨"p", ⟨"/p"⟩⟩, by decide, by unfold IsWithin; decide⟩)
  have hother : m ≠ ⟨"app", ⟨"/p/app"⟩⟩ := by
    rintro rfl
    exact hbeside _ [.root, .name "p"] "app" "2" [.name "S.kt"] (by decide) (by decide) (by decide) hm
  have hbareDisk : bareWorld.disk.WellNamed := ⟨by decide +kernel, by decide +kernel⟩
  have hbareReal : bareWorld.disk.canonical ⟨"/p/app/S.kt"⟩ = .ok ⟨"/p/app/S.kt"⟩ := by
    decide
  obtain ⟨-, -, hbare, -⟩ := moduleOf?_innermost load_bareProject hbareDisk hbareReal
  have hunmarked (directory : Path) :
      Module.isMarked bareWorld.disk DiscoveryConfig.standard.moduleMarkers directory = false :=
    Module.isMarked_eq_false (by decide) (by decide) directory
  refine ⟨load_siblingProject, hdisk, hreal, ?_, load_bareProject, ?_⟩
  · have hmem : m ∈ siblingProject.modules := (hmodule m hm).1
    rw [siblingProject, List.mem_pair] at hmem
    rw [hm, hmem.resolve_right hother]
  · exact hbare (fun directory _ => hunmarked directory) (by unfold IsWithin; decide)

end Project

end SpecLens
