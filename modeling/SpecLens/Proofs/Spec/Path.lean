import SpecLens.Proofs.Spec.Listing
import SpecLens.Proofs.Style.Container
import SpecLens.Proofs.Style.Registry
import SpecLens.Run.Request

/-!
# Paths of tests

The path of a test is read by a climb to the root of the file, its nesting by a walk down from the
declaration. Both agree below the declaration: the climb adds an entry where the walk opens a level,
and nowhere else. Above it only the climb goes on, so the containers around a declaration lead all
paths of its spec.
-/

namespace SpecLens

open Kotlin Place

namespace TestTree

mutual

/-- A test with what is nested in it, and all such inside it. -/
def elements : TestTree → List TestTree
  | node test nested => node test nested :: elementsAll nested

def elementsAll : List TestTree → List TestTree
  | [] => []
  | tree :: rest => elements tree ++ elementsAll rest

end

lemma elementsAll_eq (ts : List TestTree) : elementsAll ts = ts.flatMap elements := by
  induction ts with
  | nil => rfl
  | cons t ts ih => rw [elementsAll, ih, List.flatMap_cons]

/-- The test has the path `above` before its own entry, is a root if there is nothing above, and is
disabled if what is above is. The same holds of all inside it, which only a container has. -/
inductive Under : List PathEntry → Bool → TestTree → Prop
  | node {above : List PathEntry} {off : Bool} {t : Test} {nested : List TestTree}
    (path : t.path = above ++ [.ofName t.name]) (root : t.isRoot = above.isEmpty)
    (disabled : off = true → t.disabled = true) (container : nested ≠ [] → t.isContainer = true)
    (inside : ∀ u ∈ nested, Under t.path t.disabled u) : Under above off (.node t nested)

variable {above : List PathEntry} {off : Bool} {tree element : TestTree}

lemma Under.path_eq (h : Under above off tree) :
    tree.test.path = above ++ [.ofName tree.test.name] := by
  cases h with
  | node path => exact path

lemma Under.isRoot_eq (h : Under above off tree) : tree.test.isRoot = above.isEmpty := by
  cases h with
  | node _ root => exact root

lemma Under.nested (h : Under above off tree) (he : element ∈ tree.nested) :
    tree.test.isContainer = true ∧
      element.test.path = tree.test.path ++ [.ofName element.test.name] ∧
      element.test.isRoot = false ∧ (tree.test.disabled = true → element.test.disabled = true) := by
  cases h with
  | node path root disabled container inside =>
    cases inside element he with
    | node path' root' disabled' =>
      refine ⟨container (List.ne_nil_of_mem he), path', ?_, disabled'⟩
      rw [test, root', path]
      simp

lemma Under.of_mem_elements (h : Under above off tree) (he : element ∈ tree.elements) :
    ∃ above off, Under above off element := by
  induction h with
  | node path root disabled container inside ih =>
    rw [elements, elementsAll_eq, List.mem_cons, List.mem_flatMap] at he
    rcases he with rfl | ⟨u, hu, he⟩
    · exact ⟨_, _, .node path root disabled container inside⟩
    · exact ih u hu he

/-- Below what is above a tree, the paths in it are made of the names in it. -/
lemma Under.path_of_mem_flatten (h : Under above off tree) {t : Test} (ht : t ∈ tree.flatten) :
    ∃ own, own ≠ [] ∧ t.path = above ++ own ∧ ∀ e ∈ own, ∃ u ∈ tree.flatten, e = .ofName u.name := by
  induction h with
  | @node above off top nested path root disabled container inside ih =>
    rw [flatten, flattenAll_eq, List.mem_cons, List.mem_flatMap] at ht
    rw [flatten, flattenAll_eq]
    rcases ht with rfl | ⟨u, hu, ht⟩
    · exact ⟨[.ofName t.name], by simp, path, by simp⟩
    · obtain ⟨own, -, hpath, hown⟩ := ih u hu ht
      refine ⟨.ofName top.name :: own, by simp, by simp [hpath, path], ?_⟩
      rw [List.forall_mem_cons]
      refine ⟨⟨top, List.mem_cons_self, rfl⟩, fun e he => ?_⟩
      obtain ⟨v, hv, heq⟩ := hown e he
      exact ⟨v, List.mem_cons_of_mem _ (List.mem_flatMap.mpr ⟨u, hu, hv⟩), heq⟩

end TestTree

section

variable {s : Style} {src : Source} {p : Place}

lemma mem_testsUnder {tree : TestTree}
    (h : tree ∈ testsUnder s src p.node p.above p.node.children 0) :
    ∃ c ∈ p.children, tree ∈ testsAt s src c.node c.above := by
  rw [testsUnder_eq] at h
  obtain ⟨c, hc, h⟩ := List.mem_flatMap.mp h
  split at h
  · exact ⟨c, hc, h⟩
  · simp at h

/-- Whatever the walk collects at a place stands under the path that the climb reads there. -/
theorem under_of_mem_testsAt (hs : s.Unambiguous) {tree : TestTree}
    (h : tree ∈ testsAt s src p.node p.above) :
    tree.Under (s.pathAround src p) (s.disabledAround src p) := by
  induction p using inductionOn generalizing tree with
  | step p ih =>
    -- Unless the climb takes `p` for a container, its children stand under the same path.
    have hplain (hp : s.container? src p = none) {u : TestTree}
        (hu : u ∈ testsUnder s src p.node p.above p.node.children 0) :
        u.Under (s.pathAround src p) (s.disabledAround src p) := by
      obtain ⟨c, hc, hu⟩ := mem_testsUnder hu
      obtain ⟨hpath, hdisabled⟩ := Style.around_of_plain hp hc
      rw [← hpath, ← hdisabled]
      exact ih c hc hu
    rw [testsAt_eq] at h
    cases ht : s.test? src p with
    | none =>
      rw [ht] at h
      exact hplain (Style.container?_eq_none_of_test? ht) h
    | some t =>
      rw [ht] at h
      obtain ⟨hpath, hroot, hdisabled⟩ := Style.test?_around ht
      rcases hs.container?_of_test? ht with ⟨hkind, d, hd, rfl⟩ | ⟨hkind, hp⟩
      · simp only [hkind, if_true, List.mem_singleton] at h
        rw [h]
        refine .node hpath hroot hdisabled (fun _ => hkind) fun u hu => ?_
        obtain ⟨c, hc, hu⟩ := mem_testsUnder hu
        obtain ⟨hpath, hdisabled⟩ := Style.around_of_container hd hc
        rw [← hpath, ← hdisabled]
        exact ih c hc hu
      · simp only [hkind, Bool.false_eq_true, if_false, List.mem_cons] at h
        rcases h with rfl | h
        · exact .node hpath hroot hdisabled (by simp) (by simp)
        · exact hplain hp h

end

namespace Discovery

variable {d : Discovery} {src : Source} {decl : Declaration} {s : Style}

lemma tests_under (hs : s.Unambiguous) (hdecl : decl ∈ declarations src) :
    ∀ tree ∈ (specOf src decl s).tests,
      tree.Under (s.pathAround src decl.place) (s.disabledAround src decl.place) := by
  intro tree h
  obtain ⟨c, hc, h⟩ := mem_testsUnder h
  have hplain := Style.container?_eq_none_of_test? (test?_declaration (s := s) hdecl)
  obtain ⟨hpath, hdisabled⟩ := Style.around_of_plain hplain hc
  rw [← hpath, ← hdisabled]
  exact under_of_mem_testsAt hs h

/-- What is nested in an element has the path of that element and its own entry, is no root, and is
disabled with it. All roots of a spec have one path before their own entries. -/
theorem nested_path_extends (h : (decl, s) ∈ d.owners src) (hs : s ∈ Style.builtin) :
    specOf src decl s ∈ d.specs src ∧
    (∀ outer ∈ TestTree.elementsAll (specOf src decl s).tests, ∀ inner ∈ outer.nested,
      outer.test.isContainer = true ∧
      inner.test.path = outer.test.path ++ [.ofName inner.test.name] ∧
      inner.test.isRoot = false ∧ (outer.test.disabled = true → inner.test.disabled = true)) ∧
    ∀ t ∈ (specOf src decl s).tests, ∀ u ∈ (specOf src decl s).tests,
      t.test.path.dropLast = u.test.path.dropLast := by
  have hunder := tests_under (Style.builtin_unambiguous s hs) (mem_owners.mp h).1
  refine ⟨?_, ?_, ?_⟩
  · rw [specs_eq_map_owners]
    exact List.mem_map_of_mem (f := fun o => specOf src o.1 o.2) h
  · intro outer houter inner hinner
    rw [TestTree.elementsAll_eq] at houter
    obtain ⟨root, hroot, houter⟩ := List.mem_flatMap.mp houter
    obtain ⟨above, off, hou⟩ := (hunder root hroot).of_mem_elements houter
    exact hou.nested hinner
  · intro t ht u hu
    rw [(hunder t ht).path_eq, (hunder u hu).path_eq, List.dropLast_concat, List.dropLast_concat]

end Discovery

/-- The test in the disabled container of the inner spec is disabled, and its path goes through the
container. -/
theorem nested_path_in_nestedSpec : ∃ decl s,
    (decl, s) ∈ (Discovery.ofConfig .standard).owners nestedSpec ∧ s ∈ Style.builtin ∧
    ∃ outer ∈ TestTree.elementsAll (Discovery.specOf nestedSpec decl s).tests,
      ∃ inner ∈ outer.nested,
        inner.test.path = outer.test.path ++ [.ofName inner.test.name] ∧
        inner.test.disabled = true := by
  have hfound : ∃ o ∈ (Discovery.ofConfig .standard).owners nestedSpec, o.2 ∈ Style.builtin ∧
      ∃ outer ∈ TestTree.elementsAll (Discovery.specOf nestedSpec o.1 o.2).tests,
        ∃ inner ∈ outer.nested, outer.test.disabled = true ∧ inner.test.name.name = "l" := by
    decide +kernel
  obtain ⟨⟨decl, s⟩, howner, hs, outer, houter, inner, hinner, hoff, -⟩ := hfound
  obtain ⟨-, hnested, -⟩ := Discovery.nested_path_extends howner hs
  obtain ⟨-, hpath, -, hdisabled⟩ := hnested outer houter inner hinner
  exact ⟨decl, s, howner, hs, outer, houter, inner, hinner, hpath, hdisabled hoff⟩

namespace Discovery

variable {c : DiscoveryConfig} {src : Source} {decl : Declaration} {s : Style}

lemma unambiguous_of_mem_owners (h : (decl, s) ∈ (ofConfig c).owners src) : s.Unambiguous :=
  Style.builtin_unambiguous s (mem_builtin_of_mem_owners h)

/-- The roots of a spec are alone on their paths just if no container stands around it. -/
lemma roots_alone_iff (hs : s.Unambiguous) (hdecl : decl ∈ declarations src) :
    (∀ root ∈ (specOf src decl s).tests, root.test.path.length = 1 ∧ root.test.isRoot = true) ↔
      ((specOf src decl s).tests ≠ [] → s.parents src decl.place = []) := by
  have hunder := tests_under hs hdecl
  constructor
  · intro h hne
    obtain ⟨root, hroot⟩ := List.exists_mem_of_ne_nil _ hne
    have hisRoot := (h root hroot).2
    rw [(hunder root hroot).isRoot_eq, List.isEmpty_iff] at hisRoot
    exact List.map_eq_nil_iff.mp hisRoot
  · intro h root hroot
    have hnone : s.pathAround src decl.place = [] :=
      List.map_eq_nil_iff.mpr (h (List.ne_nil_of_mem hroot))
    rw [(hunder root hroot).path_eq, (hunder root hroot).isRoot_eq, hnone]
    exact ⟨rfl, rfl⟩

/-- The path of every test of a spec leads through the containers around the declaration and goes on
with names of the spec itself. So the roots of all specs are alone on their paths if and only if no
declaration of a spec with tests stands in a container of its style. -/
theorem roots_alone_iff_no_container_around (c : DiscoveryConfig) (src : Source) :
    (∀ o ∈ (ofConfig c).owners src, ∀ t ∈ (specOf src o.1 o.2).allTests,
      ∃ own, own ≠ [] ∧ t.path = o.2.pathAround src o.1.place ++ own ∧
        ∀ e ∈ own, ∃ u ∈ (specOf src o.1 o.2).allTests, e = .ofName u.name) ∧
    ((∀ spec ∈ (ofConfig c).specs src, ∀ root ∈ spec.tests,
        root.test.path.length = 1 ∧ root.test.isRoot = true) ↔
      ∀ o ∈ (ofConfig c).owners src, (specOf src o.1 o.2).tests ≠ [] →
        o.2.parents src o.1.place = []) := by
  constructor
  · rintro ⟨decl, s⟩ ho t ht
    rw [Spec.allTests, TestTree.flattenAll_eq] at ht ⊢
    obtain ⟨root, hroot, ht⟩ := List.mem_flatMap.mp ht
    have hunder := tests_under (unambiguous_of_mem_owners ho) (mem_owners.mp ho).1 root hroot
    obtain ⟨own, hne, hpath, hown⟩ := hunder.path_of_mem_flatten ht
    refine ⟨own, hne, hpath, fun e he => ?_⟩
    obtain ⟨u, hu, heq⟩ := hown e he
    exact ⟨u, List.mem_flatMap.mpr ⟨root, hroot, hu⟩, heq⟩
  · rw [specs_eq_map_owners, List.forall_mem_map]
    refine forall₂_congr fun o ho => ?_
    exact roots_alone_iff (unambiguous_of_mem_owners ho) (mem_owners.mp ho).1

end Discovery

/-- The root of the inner spec has the container of the outer spec on its path, and in its filter. -/
theorem root_below_other_spec : ∃ spec ∈ (Discovery.ofConfig .standard).specs nestedSpec,
    ∃ root ∈ spec.tests, root.test.path.length = 2 ∧ root.test.isRoot = false ∧
      (RunRequest.forTest .run none spec.fqn root.test).testFilter = some "x -- k" := by
  decide +kernel

end SpecLens
