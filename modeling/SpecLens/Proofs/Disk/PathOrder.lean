import Mathlib.Data.String.Basic
import Mathlib.Tactic.Lemma
import SpecLens.Disk.Path

/-!
# The order of paths

Paths are ordered by component. The order is total, and two paths of which each comes no later than
the other have the same components.
-/

namespace SpecLens

namespace Component

lemma total (a b : Component) : (a.le b || b.le a) = true := by
  cases a <;> cases b <;> simp [le, rank, le_total]

lemma antisymm {a b : Component} (h : a.le b = true) (h' : b.le a = true) : a = b := by
  cases a <;> cases b <;> simp [le, rank] at h h' ⊢
  exact le_antisymm h h'

lemma trans {a b c : Component} (h : a.le b = true) (h' : b.le c = true) : a.le c = true := by
  cases a <;> cases b <;> cases c <;> simp [le, rank] at h h' ⊢
  exact h.trans h'

lemma listLe_total (as bs : List Component) : (listLe as bs || listLe bs as) = true := by
  induction as generalizing bs with
  | nil => simp [listLe]
  | cons a as ih =>
    cases bs with
    | nil => simp [listLe]
    | cons b bs =>
      by_cases hab : a = b
      · simpa [listLe, hab] using ih bs
      · simpa [listLe, hab, Ne.symm hab] using total a b

lemma listLe_antisymm {as bs : List Component} (h : listLe as bs = true) (h' : listLe bs as = true) :
    as = bs := by
  induction as generalizing bs with
  | nil =>
    cases bs with
    | nil => rfl
    | cons b bs => simp [listLe] at h'
  | cons a as ih =>
    cases bs with
    | nil => simp [listLe] at h
    | cons b bs =>
      by_cases hab : a = b
      · subst hab
        rw [ih (by simpa [listLe] using h) (by simpa [listLe] using h')]
      · simp only [listLe, hab, Ne.symm hab, if_false] at h h'
        exact absurd (antisymm h h') hab

lemma listLe_trans {as bs cs : List Component} (h : listLe as bs = true) (h' : listLe bs cs = true) :
    listLe as cs = true := by
  induction as generalizing bs cs with
  | nil => rfl
  | cons a as ih =>
    cases bs with
    | nil => simp [listLe] at h
    | cons b bs =>
      cases cs with
      | nil => simp [listLe] at h'
      | cons c cs =>
        by_cases hab : a = b
        · subst hab
          by_cases hac : a = c
          · simp only [listLe, hac, if_true] at h h' ⊢
            exact ih h h'
          · simpa [listLe, hac] using h'
        · have hle : a.le b = true := by simpa [listLe, hab] using h
          by_cases hbc : b = c
          · subst hbc
            simpa [listLe, hab] using hle
          · have hle' : b.le c = true := by simpa [listLe, hbc] using h'
            have hac : a ≠ c := by
              rintro rfl
              exact hab (antisymm hle hle')
            simpa [listLe, hac] using trans hle hle'

end Component

namespace Path

lemma same_iff {p q : Path} : p.same q = true ↔ p.components = q.components := by
  simp [same]

lemma same_comm (p q : Path) : p.same q = q.same p := by
  rw [same, same, Bool.beq_comm]

/-- One path comes before another. -/
def Before (p q : Path) : Prop := p.le q = true ∧ p.same q = false

lemma Before.asymm {p q : Path} (h : p.Before q) : ¬q.Before p := by
  intro h'
  have hsame : p.same q = true := same_iff.mpr (Component.listLe_antisymm h.1 h'.1)
  rw [h.2] at hsame
  cases hsame

/-- Sorting puts paths of which no two are the same into strict order. -/
lemma mergeSort_before {paths : List Path} (h : paths.Pairwise fun p q => p.same q = false) :
    (paths.mergeSort le).Pairwise Before := by
  have hsorted : (paths.mergeSort le).Pairwise fun p q => p.le q = true :=
    List.pairwise_mergeSort
      (fun p q r => @Component.listLe_trans p.components q.components r.components)
      (fun p q => Component.listLe_total p.components q.components) paths
  have hdistinct : (paths.mergeSort le).Pairwise fun p q => p.same q = false := by
    refine ((List.mergeSort_perm paths le).pairwise_iff fun {p q} hpq => ?_).mpr h
    rw [same_comm, hpq]
  exact hsorted.and hdistinct

end Path

end SpecLens
