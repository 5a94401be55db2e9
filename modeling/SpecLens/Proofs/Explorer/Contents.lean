import Mathlib.Data.List.Basic
import SpecLens.Proofs.Explorer.Run

/-!
# What an outline holds

The rows of an outline with all of them expanded, whichever row is selected. Moves change which rows
are visible and selected but not these, and each of them can be selected.
-/

namespace SpecLens

namespace TestTree

mutual

/-- A test and all that are nested in it, in source order, each with the number of tests around it.
The first one has `level` tests around it. -/
def leveled (level : Nat) : TestTree → List (Nat × Test)
  | node test nested => (level, test) :: leveledAll (level + 1) nested

def leveledAll (level : Nat) : List TestTree → List (Nat × Test)
  | [] => []
  | tree :: rest => leveled level tree ++ leveledAll level rest

end

mutual

lemma map_leveled (level : Nat) (tree : TestTree) : (tree.leveled level).map (·.2) = tree.flatten := by
  cases tree with
  | node test nested => rw [leveled, flatten, List.map_cons, map_leveledAll]

lemma map_leveledAll (level : Nat) (trees : List TestTree) :
    (leveledAll level trees).map (·.2) = flattenAll trees := by
  cases trees with
  | nil => rfl
  | cons tree rest =>
    rw [leveledAll, flattenAll, List.map_append, map_leveled, map_leveledAll]

end

end TestTree

/-- Every test of a spec, in source order, with the number of tests that it is nested in. -/
def Spec.leveledTests (s : Spec) : List (Nat × Test) := TestTree.leveledAll 0 s.tests

lemma Spec.map_leveledTests (s : Spec) : s.leveledTests.map (·.2) = s.allTests :=
  TestTree.map_leveledAll 0 s.tests

namespace Branch

mutual

lemma setExpanded_setExpanded (x y : Bool) (b : Branch) :
    (b.setExpanded y).setExpanded x = b.setExpanded x := by
  cases b with
  | node item expanded children => simp [setExpanded, setExpandedAll_setExpandedAll]

lemma setExpandedAll_setExpandedAll (x y : Bool) (bs : List Branch) :
    setExpandedAll x (setExpandedAll y bs) = setExpandedAll x bs := by
  cases bs with
  | nil => rfl
  | cons b rest =>
    simp [setExpandedAll, setExpanded_setExpanded, setExpandedAll_setExpandedAll]

end

mutual

lemma setExpanded_toggleAt (x : Bool) (index : Nat) (b : Branch) :
    (b.toggleAt index).setExpanded x = b.setExpanded x := by
  cases b with
  | node item expanded children =>
    cases index with
    | zero => rfl
    | succ i =>
      simp only [toggleAt, setExpanded]
      split
      · rw [setExpandedAll_toggleAmong]
      · rfl

lemma setExpandedAll_toggleAmong (x : Bool) (index : Nat) (bs : List Branch) :
    setExpandedAll x (toggleAmong index bs) = setExpandedAll x bs := by
  cases bs with
  | nil => rfl
  | cons b rest =>
    rw [toggleAmong]
    split
    · rw [setExpandedAll, setExpandedAll, setExpanded_toggleAt]
    · rw [setExpandedAll, setExpandedAll, setExpandedAll_toggleAmong]

end

/-- A row as its depth and what it stands for. -/
def entry (row : Nat × Branch) : Nat × RowItem := (row.1, row.2.item)

/-- The rows at and below a row, visible or not. -/
def contents (depth : Nat) (b : Branch) : List (Nat × RowItem) :=
  ((b.setExpanded true).rows depth).map entry

def contentsAll (depth : Nat) (bs : List Branch) : List (Nat × RowItem) :=
  (rowsAll depth (setExpandedAll true bs)).map entry

lemma contents_node (depth : Nat) (item : RowItem) (expanded : Bool) (children : List Branch) :
    contents depth (node item expanded children) =
      (depth, item) :: contentsAll (depth + 1) children := by
  simp [contents, contentsAll, setExpanded, rows, entry, Branch.item]

lemma contentsAll_cons (depth : Nat) (b : Branch) (rest : List Branch) :
    contentsAll depth (b :: rest) = contents depth b ++ contentsAll depth rest := by
  simp [contents, contentsAll, setExpandedAll, rowsAll]

lemma contentsAll_eq (depth : Nat) (bs : List Branch) :
    contentsAll depth bs = bs.flatMap (contents depth) := by
  induction bs with
  | nil => rfl
  | cons b rest ih => rw [contentsAll_cons, ih, List.flatMap_cons]

mutual

lemma rows_sublist (depth : Nat) (b : Branch) :
    ((b.rows depth).map entry).Sublist (b.contents depth) := by
  cases b with
  | node item expanded children =>
    rw [contents_node, rows, List.map_cons]
    refine List.Sublist.cons_cons _ ?_
    split
    · exact rowsAll_sublist (depth + 1) children
    · exact List.nil_sublist _

lemma rowsAll_sublist (depth : Nat) (bs : List Branch) :
    ((rowsAll depth bs).map entry).Sublist (contentsAll depth bs) := by
  cases bs with
  | nil => exact List.nil_sublist _
  | cons b rest =>
    rw [contentsAll_cons, rowsAll, List.map_append]
    exact (rows_sublist depth b).append (rowsAll_sublist depth rest)

end

mutual

/-- Each test has a row, the deeper the more tests it is nested in. -/
lemma contents_ofTest (depth level : Nat) (specFqn : String) (tree : TestTree) :
    (ofTest specFqn tree).contents (depth + level) =
      (tree.leveled level).map fun t => (depth + t.1, .test specFqn t.2) := by
  cases tree with
  | node test nested =>
    rw [ofTest, contents_node, TestTree.leveled, List.map_cons, Nat.add_assoc, contents_ofTests]

lemma contents_ofTests (depth level : Nat) (specFqn : String) (trees : List TestTree) :
    contentsAll (depth + level) (ofTests specFqn trees) =
      (TestTree.leveledAll level trees).map fun t => (depth + t.1, .test specFqn t.2) := by
  cases trees with
  | nil => rfl
  | cons tree rest =>
    rw [ofTests, contentsAll_cons, TestTree.leveledAll, List.map_append, contents_ofTest,
      contents_ofTests]

end

lemma contents_ofSpec (depth : Nat) (s : Spec) : (ofSpec s).contents depth =
    (depth, .spec s.name s.fqn s.style s.anchor) ::
      s.leveledTests.map fun t => (depth + 1 + t.1, .test s.fqn t.2) := by
  rw [ofSpec, contents_node, ← Nat.add_zero (depth + 1), contents_ofTests]
  rfl

end Branch

namespace Outline

/-- All rows of an outline with their depths. -/
def contents (t : Outline) : List (Nat × RowItem) := (t.root.map (Branch.contents 0)).getD []

/-- What the rows of an outline stand for. -/
def items (t : Outline) : List RowItem := t.contents.map (·.2)

lemma items_congr {t u : Outline} (h : t.contents = u.contents) : t.items = u.items := by
  rw [items, items, h]

lemma contents_eq_rows (t : Outline) : t.contents = t.expandAll.rows.map Branch.entry := by
  cases hroot : t.root <;> simp [contents, rows, expandAll, hroot, Branch.contents]

lemma rows_expandAll_map {f : Branch → Branch}
    (h : ∀ b, (f b).setExpanded true = b.setExpanded true) (t : Outline) (selected : Nat) :
    (expandAll ⟨t.root.map f, selected⟩).rows = t.expandAll.rows := by
  cases hroot : t.root <;> simp [rows, expandAll, hroot, h]

/-- Moves neither add rows nor remove any: all of them are back once everything is expanded. -/
lemma rows_expandAll_move (t : Outline) (m : Move) :
    (t.move m).expandAll.rows = t.expandAll.rows := by
  cases m with
  | next =>
    rw [move, selectNext]
    split <;> rfl
  | previous => rfl
  | select index => rfl
  | toggle => exact rows_expandAll_map (Branch.setExpanded_toggleAt true t.selected) t _
  | expandAll => exact rows_expandAll_map (Branch.setExpanded_setExpanded true true) t t.selected
  | collapseAll => exact rows_expandAll_map (Branch.setExpanded_setExpanded true false) t 0

lemma contents_move (t : Outline) (m : Move) : (t.move m).contents = t.contents := by
  rw [contents_eq_rows, contents_eq_rows, rows_expandAll_move]

lemma top?_eq_head? (t : Outline) : t.top? = t.items.head? := by
  rcases hroot : t.root with _ | ⟨item, expanded, children⟩
  · simp [top?, items, contents, hroot]
  · simp [top?, items, contents, hroot, Branch.contents_node, Branch.item]

lemma mem_items_of_selectedRow? {t : Outline} {row : Branch} (h : t.selectedRow? = some row) :
    row.item ∈ t.items := by
  obtain ⟨⟨depth, row⟩, hrow, rfl⟩ := Option.map_eq_some_iff.mp h
  have hmem := List.mem_of_getElem? hrow
  obtain ⟨root, hroot⟩ : ∃ root, t.root = some root := by
    cases hroot : t.root with
    | none => simp [rows, hroot] at hmem
    | some root => exact ⟨root, rfl⟩
  have hsublist := root.rows_sublist 0
  simp only [rows, hroot, Option.map_some, Option.getD_some] at hmem
  have hentry := hsublist.subset (List.mem_map_of_mem hmem)
  simpa [items, contents, hroot] using ⟨depth, hentry⟩

/-- Each row can be selected. -/
lemma exists_move_of_mem_items {t : Outline} {item : RowItem} (h : item ∈ t.items) :
    ∃ index row, ((t.move .expandAll).move (.select index)).selectedRow? = some row ∧
      row.item = item := by
  obtain ⟨⟨depth, item⟩, hmem, rfl⟩ := List.mem_map.mp h
  rw [contents_eq_rows] at hmem
  obtain ⟨⟨depth, row⟩, hrow, heq⟩ := List.mem_map.mp hmem
  obtain ⟨index, hindex, hget⟩ := List.getElem_of_mem hrow
  have hmin : min index (t.expandAll.rows.length - 1) = index := by omega
  refine ⟨index, row, ?_, congrArg Prod.snd heq⟩
  have hselected : (t.expandAll.select index).selectedRow? =
      (t.expandAll.rows[min index (t.expandAll.rows.length - 1)]?).map (·.2) := rfl
  rw [move, move, hselected, hmin, List.getElem?_eq_getElem hindex, hget]
  rfl

/-- An outline holds the file, its module and the specs, each with its tests. -/
lemma contents_build (file : Path) (module : String) (specs : List Spec) :
    (build file module specs).contents = (0, .file file) :: (1, .module module) ::
      specs.flatMap fun s => (2, .spec s.name s.fqn s.style s.anchor) ::
        s.leveledTests.map fun t => (3 + t.1, .test s.fqn t.2) := by
  simp only [contents, build, Option.map_some, Option.getD_some, Branch.contents_node,
    Branch.contentsAll_eq, List.flatMap_map, List.flatMap_singleton, Branch.contents_ofSpec]

lemma items_build (file : Path) (module : String) (specs : List Spec) :
    (build file module specs).items = .file file :: .module module :: specs.flatMap fun s =>
      .spec s.name s.fqn s.style s.anchor :: s.allTests.map (.test s.fqn) := by
  simp only [items, contents_build, List.map_cons, List.map_flatMap, List.map_map,
    ← Spec.map_leveledTests]
  rfl

end Outline

namespace Explorer

variable {e : Explorer} {w : World}

lemma contents_outlineOf (e : Explorer) (w : World) (file : Path) :
    (e.outlineOf w file).contents =
      match e.project.moduleOf? w.disk file, e.discovery.specsOfFile w file with
      | some m, .ok specs => (Outline.build file m.name specs).contents
      | _, _ => [] := by
  have hexpansion (t : Outline) :
      (if e.startsExpanded then t.expandAll else t.collapseAll).contents = t.contents := by
    split
    · exact t.contents_move .expandAll
    · exact t.contents_move .collapseAll
  unfold outlineOf
  cases e.project.moduleOf? w.disk file with
  | none => rfl
  | some m =>
    dsimp only
    rw [hexpansion]
    cases e.discovery.specsOfFile w file <;> rfl

end Explorer

end SpecLens
