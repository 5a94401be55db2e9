import Mathlib.Algebra.GroupWithZero.Nat
import Mathlib.Data.List.Induction
import Mathlib.Data.List.Sort
import Mathlib.Data.String.Basic
import SpecLens.Project.Index
import SpecLens.Proofs.Style.Registration

/-!
# The groups of a scan

A scan groups its files by the names of their modules. Such groups come about file by file: each
file joins the group of its module, or opens one at the end, and the groups are sorted once all
files are placed. No file is lost or taken twice on the way, and each group is what the scan has of
one module, in the order of the scan.
-/

namespace SpecLens.ProjectIndex

variable {files : List IndexedFile} {e : IndexedFile} {names : List String}

/-- The files of a module with its name. -/
def groupOf (files : List IndexedFile) (name : String) : String × List IndexedFile :=
  (name, files.filter (·.module = name))

/-- The names of the modules, each where it comes first. -/
def moduleNames (files : List IndexedFile) : List String := (files.map (·.module)).eraseDups

lemma moduleNames_append_singleton (files : List IndexedFile) (e : IndexedFile) :
    moduleNames (files ++ [e]) =
      moduleNames files ++ if e.module ∈ moduleNames files then [] else [e.module] := by
  rw [moduleNames, List.map_append]
  exact eraseDups_append_singleton _ _

lemma mem_moduleNames {name : String} :
    name ∈ moduleNames files ↔ ∃ e ∈ files, e.module = name := by
  rw [moduleNames, List.mem_eraseDups, List.mem_map]

lemma nodup_moduleNames (files : List IndexedFile) : (moduleNames files).Nodup := by
  induction files using List.reverseRecOn with
  | nil => exact List.nodup_nil
  | append_singleton files e ih =>
    rw [moduleNames_append_singleton]
    split
    · simpa using ih
    · rename_i hnew
      exact List.nodup_append'.mpr
        ⟨ih, List.nodup_singleton _, List.disjoint_singleton.mpr hnew⟩

lemma groupOf_append_singleton (files : List IndexedFile) (e : IndexedFile) (name : String) :
    groupOf (files ++ [e]) name =
      if e.module = name then (name, (groupOf files name).2 ++ [e]) else groupOf files name := by
  by_cases h : e.module = name <;> simp [groupOf, List.filter_append, h]

lemma groupOf_eq_nil_iff {name : String} :
    (groupOf files name).2 = [] ↔ name ∉ moduleNames files := by
  simp [groupOf, mem_moduleNames]

/-- A file that is placed changes the group of its module only. -/
lemma place_map_groupOf (hnodup : names.Nodup)
    (hnew : e.module ∉ names → (groupOf files e.module).2 = []) :
    place (names.map (groupOf files)) e =
      (names ++ if e.module ∈ names then [] else [e.module]).map (groupOf (files ++ [e])) := by
  induction names with
  | nil =>
    have hfirst : (groupOf files e.module).2 = [] := hnew List.not_mem_nil
    simp [place, groupOf_append_singleton, hfirst]
  | cons name names ih =>
    obtain ⟨hname, hnodup⟩ := List.nodup_cons.mp hnodup
    rw [List.map_cons, place]
    by_cases h : name = e.module
    · -- The group is met here, and none of the others has its name.
      subst h
      have hrest : names.map (groupOf (files ++ [e])) = names.map (groupOf files) := by
        refine List.map_congr_left fun other hother => ?_
        have hne : e.module ≠ other := fun heq => hname (heq ▸ hother)
        rw [groupOf_append_singleton, if_neg hne]
      have hgroup : groupOf (files ++ [e]) e.module =
          ((groupOf files e.module).1, (groupOf files e.module).2 ++ [e]) := by
        rw [groupOf_append_singleton, if_pos rfl]
        rfl
      simp only [if_pos (show (groupOf files e.module).1 = e.module from rfl), List.mem_cons,
        true_or, if_true, List.append_nil, List.map_cons, hrest, hgroup]
    · have hgroup : groupOf (files ++ [e]) name = groupOf files name := by
        rw [groupOf_append_singleton, if_neg (Ne.symm h)]
      have hmem : e.module ∈ name :: names ↔ e.module ∈ names := by simp [Ne.symm h]
      rw [if_neg (show (groupOf files name).1 ≠ e.module from h),
        ih hnodup fun hnot => hnew (mt hmem.mp hnot)]
      simp only [hmem, List.cons_append, List.map_cons, hgroup]

/-- Files placed one by one form one group for each module, in the order in which the modules are
met. -/
lemma placeAll_eq (files : List IndexedFile) :
    placeAll files = (moduleNames files).map (groupOf files) := by
  induction files using List.reverseRecOn with
  | nil => rfl
  | append_singleton files e ih =>
    rw [placeAll, List.foldl_append, ← placeAll, ih, moduleNames_append_singleton]
    exact place_map_groupOf (nodup_moduleNames files) groupOf_eq_nil_iff.mpr

lemma place_perm (groups : List (String × List IndexedFile)) (e : IndexedFile) :
    ((place groups e).flatMap (·.2)).Perm (groups.flatMap (·.2) ++ [e]) := by
  induction groups with
  | nil => rfl
  | cons group groups ih =>
    rw [place, List.flatMap_cons, List.append_assoc]
    split
    · rw [List.flatMap_cons, List.append_assoc]
      exact List.perm_append_comm.append_left group.2
    · exact ih.append_left group.2

lemma placeAll_perm (files : List IndexedFile) :
    ((placeAll files).flatMap (·.2)).Perm files := by
  induction files using List.reverseRecOn with
  | nil => rfl
  | append_singleton files e ih =>
    rw [placeAll, List.foldl_append, ← placeAll]
    exact (place_perm (placeAll files) e).trans (ih.append_right [e])

/-- The groups are those of the modules, each with all its files, in the order of the names. -/
lemma byModule_eq_map (i : ProjectIndex) : i.byModule =
    ((moduleNames i.files).mergeSort fun a b => decide (a ≤ b)).map (groupOf i.files) := by
  rw [byModule, placeAll_eq]
  symm
  exact List.map_mergeSort fun _ _ _ _ => rfl

lemma byModule_perm (i : ProjectIndex) : (i.byModule.flatMap (·.2)).Perm i.files :=
  ((List.mergeSort_perm _ _).flatMap_right _).trans (placeAll_perm i.files)

lemma mem_byModule {i : ProjectIndex} {group : String × List IndexedFile} :
    group ∈ i.byModule ↔ group.2 ≠ [] ∧ group.2 = i.files.filter (·.module = group.1) := by
  rw [byModule_eq_map, List.mem_map]
  constructor
  · rintro ⟨name, hname, rfl⟩
    rw [List.mem_mergeSort] at hname
    exact ⟨fun hnil => groupOf_eq_nil_iff.mp hnil hname, rfl⟩
  · rintro ⟨hne, heq⟩
    have hgroup : groupOf i.files group.1 = group := Prod.ext rfl heq.symm
    have hname : group.1 ∈ moduleNames i.files := by
      by_contra hnot
      exact hne (hgroup ▸ groupOf_eq_nil_iff.mpr hnot)
    exact ⟨group.1, List.mem_mergeSort.mpr hname, hgroup⟩

lemma names_byModule (i : ProjectIndex) : (i.byModule.map (·.1)).Pairwise (· < ·) := by
  have hnames : i.byModule.map (·.1) =
      (moduleNames i.files).mergeSort fun a b => decide (a ≤ b) := by
    rw [byModule_eq_map, List.map_map]
    exact List.map_id _
  have hsorted := List.pairwise_mergeSort' (· ≤ ·) (moduleNames i.files)
  have hnodup := (List.mergeSort_perm (moduleNames i.files) fun a b => decide (a ≤ b)).nodup_iff.mpr
    (nodup_moduleNames i.files)
  rw [hnames]
  exact (hsorted.and hnodup).imp fun h => lt_of_le_of_ne h.1 h.2

/-- What is added up over the files of each group and then over the groups is what is added up over
all files. -/
lemma sum_byModule (i : ProjectIndex) (f : IndexedFile → Nat) :
    (i.byModule.map fun group => (group.2.map f).sum).sum = (i.files.map f).sum := by
  rw [← ((byModule_perm i).map f).sum_nat, List.map_flatMap, List.flatMap_def, List.sum_flatten,
    List.map_map]
  rfl

lemma specCount_eq (i : ProjectIndex) : i.specCount = (i.files.map (·.specs.length)).sum :=
  List.length_flatMap

lemma testCount_eq (i : ProjectIndex) :
    i.testCount = (i.files.map fun e => (e.specs.map Spec.testCount).sum).sum := by
  rw [testCount, List.flatMap_assoc, List.length_flatMap]
  simp only [List.length_flatMap]
  rfl

/-- The groups of a scan have each file once, in the group of its module. Their names increase,
none is empty, and each one has its files in the order of the scan. The specs and the tests of the
groups add up to those of the scan. -/
theorem byModule_partitions (i : ProjectIndex) :
    (i.byModule.flatMap (·.2)).Perm i.files ∧
    (∀ group, group ∈ i.byModule ↔
      group.2 ≠ [] ∧ group.2 = i.files.filter (·.module = group.1)) ∧
    (i.byModule.map (·.1)).Pairwise (· < ·) ∧
    (i.byModule.map fun group => (group.2.map (·.specs.length)).sum).sum = i.specCount ∧
    (i.byModule.map fun group =>
      (group.2.map fun e => (e.specs.map Spec.testCount).sum).sum).sum = i.testCount := by
  refine ⟨byModule_perm i, fun _ => mem_byModule, names_byModule i, ?_, ?_⟩
  · rw [specCount_eq, sum_byModule]
  · rw [testCount_eq, sum_byModule]

end SpecLens.ProjectIndex
