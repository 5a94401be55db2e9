import Mathlib.Algebra.GroupWithZero.Nat
import SpecLens.Proofs.Explorer.Expansion

/-!
# The rows of a new outline

A new outline shows everything it holds: the file, its module, and below them each spec with one row
for each of its tests. Whatever is done with it, these rows are back once all of them are expanded.
-/

namespace SpecLens

namespace Branch

mutual

lemma setExpanded_ofTest (specFqn : String) (tree : TestTree) :
    (ofTest specFqn tree).setExpanded true = ofTest specFqn tree := by
  cases tree with
  | node test nested => rw [ofTest, setExpanded, setExpandedAll_ofTests]

lemma setExpandedAll_ofTests (specFqn : String) (trees : List TestTree) :
    setExpandedAll true (ofTests specFqn trees) = ofTests specFqn trees := by
  cases trees with
  | nil => rfl
  | cons tree rest => rw [ofTests, setExpandedAll, setExpanded_ofTest, setExpandedAll_ofTests]

end

lemma setExpandedAll_ofSpec (specs : List Spec) :
    setExpandedAll true (specs.map ofSpec) = specs.map ofSpec := by
  induction specs with
  | nil => rfl
  | cons s rest ih =>
    rw [List.map_cons, setExpandedAll, ih, ofSpec, setExpanded, setExpandedAll_ofTests]

lemma length_contents (depth : Nat) (b : Branch) : (b.contents depth).length = b.size := by
  rw [contents, List.length_map, length_rows, visible_setExpanded]

end Branch

namespace Outline

lemma expandAll_build (file : Path) (module : String) (specs : List Spec) :
    (build file module specs).expandAll = build file module specs := by
  simp only [build, expandAll, Option.map_some, Branch.setExpanded, Branch.setExpandedAll,
    Branch.setExpandedAll_ofSpec]

lemma length_contents (t : Outline) : t.contents.length = t.size := by
  unfold contents size
  cases t.root with
  | none => rfl
  | some b => exact b.length_contents 0

lemma rows_expandAll_moves (t : Outline) (ms : List Move) :
    (t.moves ms).expandAll.rows = t.expandAll.rows := by
  induction ms generalizing t with
  | nil => rfl
  | cons m rest ih => exact (ih (t.move m)).trans (rows_expandAll_move t m)

/-- A new outline shows the file, its module and each spec with one row for each of its tests, in
the order in which the tests are listed. The row of a test is the deeper the more tests it is nested
in. There are no other rows, and after any moves the same ones are back once everything is
expanded. -/
theorem build_shows_every_test (file : Path) (module : String) (specs : List Spec) :
    let t := build file module specs
    t.rows.map Branch.entry = (0, .file file) :: (1, .module module) ::
      specs.flatMap (fun s => (2, .spec s.name s.fqn s.style s.anchor) ::
        s.leveledTests.map fun (level, test) => (3 + level, .test s.fqn test)) ∧
      (∀ s : Spec, s.leveledTests.map (·.2) = s.allTests) ∧
      t.size = 2 + (specs.map fun s => 1 + s.testCount).sum ∧
      ∀ ms, (t.moves ms).expandAll.rows = t.rows := by
  intro t
  refine ⟨?_, Spec.map_leveledTests, ?_, fun ms => ?_⟩
  · rw [← contents_build, contents_eq_rows, expandAll_build]
  · have hrows (s : Spec) : s.leveledTests.length = s.testCount := by
      rw [Spec.testCount, ← s.map_leveledTests, List.length_map]
    rw [← length_contents, contents_build, List.length_cons, List.length_cons, List.length_flatMap]
    simp only [List.length_cons, List.length_map, hrows, Nat.add_comm _ 1]
    omega
  · rw [rows_expandAll_moves, expandAll_build]

end Outline

end SpecLens
