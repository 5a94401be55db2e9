import Mathlib.Order.MinMax
import SpecLens.Proofs.Explorer.Contents

/-!
# The cursor of an outline

Whatever moves are made, the cursor of an outline is on a visible row. Rows come and go with every
expansion, so each move has to keep the cursor above the end of the rows that are then visible.
-/

namespace SpecLens

namespace Branch

lemma rows_ne_nil (depth : Nat) (b : Branch) : b.rows depth ≠ [] := by
  cases b
  simp [rows]

/-- Expanding rows hides none. -/
lemma length_rows_le_setExpanded (depth : Nat) (b : Branch) :
    (b.rows depth).length ≤ ((b.setExpanded true).rows depth).length := by
  have hlength := (rows_sublist depth b).length_le
  rwa [contents, List.length_map, List.length_map] at hlength

end Branch

namespace Outline

/-- The cursor is not below the last visible row. -/
def InBounds (t : Outline) : Prop := t.selected ≤ t.rows.length - 1

variable {t : Outline}

lemma rows_eq_nil_iff : t.rows = [] ↔ t.isEmpty = true := by
  unfold rows isEmpty
  cases t.root with
  | none => simp
  | some b => simp [Branch.rows_ne_nil]

lemma length_rows_le_expandAll (t : Outline) : t.rows.length ≤ t.expandAll.rows.length := by
  unfold rows expandAll
  cases t.root with
  | none => exact le_rfl
  | some b => exact Branch.length_rows_le_setExpanded 0 b

lemma inBounds_select (t : Outline) (index : Nat) : (t.select index).InBounds := min_le_right _ _

lemma InBounds.selectNext (h : t.InBounds) : t.selectNext.InBounds := by
  unfold Outline.selectNext
  split
  · exact Nat.le_sub_one_of_lt ‹_›
  · exact h

lemma InBounds.move (h : t.InBounds) (m : Move) : (t.move m).InBounds := by
  cases m with
  | next => exact h.selectNext
  | previous => exact (Nat.sub_le _ _).trans h
  | select index => exact inBounds_select t index
  | toggle => exact inBounds_select _ _
  | expandAll => exact h.trans (Nat.sub_le_sub_right (length_rows_le_expandAll t) 1)
  | collapseAll => exact Nat.zero_le _

lemma isEmpty_move (t : Outline) (m : Move) : (t.move m).isEmpty = t.isEmpty := by
  have htop (t : Outline) : t.isEmpty = t.top?.isNone := by
    simp [isEmpty, top?]
  rw [htop, htop, top?_move]

def moves (t : Outline) (ms : List Move) : Outline := ms.foldl move t

lemma InBounds.moves (h : t.InBounds) (ms : List Move) : (t.moves ms).InBounds := by
  induction ms generalizing t with
  | nil => exact h
  | cons m rest ih => exact ih (h.move m)

lemma isEmpty_moves (t : Outline) (ms : List Move) : (t.moves ms).isEmpty = t.isEmpty := by
  induction ms generalizing t with
  | nil => rfl
  | cons m rest ih => exact (ih (t.move m)).trans (isEmpty_move t m)

lemma InBounds.selected_lt (h : t.InBounds) (hsome : t.isEmpty = false) :
    t.selected < t.rows.length := by
  have hrows : t.rows ≠ [] := by simp [rows_eq_nil_iff, hsome]
  exact Nat.lt_of_le_sub_one (List.length_pos_iff.mpr hrows) h

/-- An outline that was built or is empty has its cursor on a visible row after any moves, unless it
has no rows; the moves do not change whether it has some. -/
theorem cursor_visible (start : Outline)
    (hstart : start = .empty ∨ ∃ file module specs, start = .build file module specs)
    (ms : List Move) :
    let t := start.moves ms
    (t.isEmpty = false → t.selected < t.rows.length ∧ ∃ row, t.selectedRow? = some row) ∧
      (t.isEmpty = true → t.selected = 0 ∧ t.selectedRow? = none) ∧
      t.isEmpty = start.isEmpty := by
  intro t
  have hbounds : t.InBounds := by
    have hzero : start.selected = 0 := by
      rcases hstart with rfl | ⟨file, module, specs, rfl⟩ <;> rfl
    have hfirst : start.InBounds := hzero.trans_le (Nat.zero_le _)
    exact hfirst.moves ms
  refine ⟨fun hsome => ?_, fun hempty => ?_, isEmpty_moves start ms⟩
  · have hlt := hbounds.selected_lt hsome
    exact ⟨hlt, _, by rw [selectedRow?, List.getElem?_eq_getElem hlt, Option.map_some]⟩
  · have hrows : t.rows = [] := rows_eq_nil_iff.mpr hempty
    refine ⟨?_, by rw [selectedRow?, hrows, List.getElem?_nil, Option.map_none]⟩
    rwa [InBounds, hrows, List.length_nil, Nat.le_zero] at hbounds

/-- A spec with a container that holds one test. -/
def containerSpec : Spec where
  name := "S"
  fqn := "S"
  superclass := "io.kotest.core.spec.style.FunSpec"
  style := "Fun Spec"
  anchor := default
  tests := [.node ⟨⟨none, "c", false⟩, [⟨"c", false⟩], .container, false, true, default⟩
    [.node ⟨⟨none, "t", false⟩, [⟨"c", false⟩, ⟨"t", false⟩], .leaf, false, false, default⟩ []]]

/-- Collapsing the last container leaves the cursor on it, and there is no row after it. -/
theorem cursor_visible_on_collapsed :
    let start := build ⟨"/p/A.kt"⟩ "p" [containerSpec]
    let t := start.moves [.select 9, .previous, .toggle, .next]
    (start = .empty ∨ ∃ file module specs, start = .build file module specs) ∧
      t.selected = 3 ∧ t.rows.length = 4 ∧ ∃ row, t.selectedRow? = some row := by
  intro start t
  have hstart : start = .empty ∨ ∃ file module specs, start = .build file module specs :=
    .inr ⟨_, _, _, rfl⟩
  have hvisible := cursor_visible start hstart [.select 9, .previous, .toggle, .next]
  exact ⟨hstart, by decide +kernel, by decide +kernel, (hvisible.1 (by decide +kernel)).2⟩

end Outline

end SpecLens
