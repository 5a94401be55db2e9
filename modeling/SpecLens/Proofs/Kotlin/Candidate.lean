import Mathlib.Tactic.Lemma
import Mathlib.Tactic.Tauto
import SpecLens.Kotlin.Declaration

/-!
# The names that a reference may denote

A name is a candidate for a reference if an explicit import of the first segment leads to it, if it
is the reference as written, or if a wildcard import or the package holds it under the reference.
Neither the order of the imports nor a repetition of one makes a difference.
-/

namespace SpecLens.Kotlin

open Text

/-- The first segment of a dotted reference. -/
def firstSegment (reference : String) : String :=
  match cutAt? ['.'] reference.toList with
  | some (first, _) => String.ofList first
  | none => reference

/-- A reference with the path of an import in place of its first segment. -/
def Import.expand (i : Import) (reference : String) : String :=
  match cutAt? ['.'] reference.toList with
  | some (_, rest) => i.path ++ "." ++ String.ofList rest
  | none => i.path

namespace Header

/-- An explicit import of the first segment of `reference` leads to `name`. -/
def Imports (h : Header) (reference name : String) : Prop :=
  ∃ i ∈ h.imports, i.visibleName = some (firstSegment reference) ∧ i.expand reference = name

/-- Where names may be found under a reference: the wildcard imports and the package. -/
def bases (h : Header) : List String :=
  (h.imports.filter (·.wildcard)).map (·.path) ++ h.package.toList

/-- A wildcard import or the package holds `name` under `reference`. -/
def Opens (h : Header) (reference name : String) : Prop :=
  ∃ base ∈ h.bases, base ++ "." ++ reference = name

instance (h : Header) (reference name : String) : Decidable (h.Opens reference name) :=
  inferInstanceAs (Decidable (∃ base ∈ h.bases, base ++ "." ++ reference = name))

/-- The header without its package and its wildcard imports. -/
def explicit (h : Header) : Header := ⟨none, h.imports.filter fun i => !i.wildcard⟩

/-- The same package and the same imports, in whatever order and however often. -/
structure SameImports (h h' : Header) : Prop where
  package : h.package = h'.package
  imports : ∀ i, i ∈ h.imports ↔ i ∈ h'.imports

variable {h h' : Header} {reference name : String}

lemma mem_bases {base : String} : base ∈ h.bases ↔
    (∃ i ∈ h.imports, i.wildcard = true ∧ i.path = base) ∨ h.package = some base := by
  simp [bases, and_assoc]

theorem mem_candidates : name ∈ h.candidates reference ↔
    h.Imports reference name ∨ name = reference ∨ h.Opens reference name := by
  have hopens : h.Opens reference name ↔
      (∃ i ∈ h.imports, i.wildcard = true ∧ i.path ++ "." ++ reference = name) ∨
        ∃ base, h.package = some base ∧ base ++ "." ++ reference = name := by
    simp [Opens, bases, or_and_right, exists_or, ← and_assoc]
  rw [hopens, Imports, candidates, List.mem_eraseDups]
  simp only [firstSegment, Import.expand]
  cases cutAt? ['.'] reference.toList with
  | none => simp [and_assoc, or_comm, or_left_comm, or_assoc]
  | some cut => simp [and_assoc]

lemma mem_candidates_explicit :
    name ∈ h.explicit.candidates reference ↔ h.Imports reference name ∨ name = reference := by
  have himports : h.explicit.Imports reference name ↔ h.Imports reference name := by
    refine exists_congr fun i => ⟨?_, ?_⟩
    · rintro ⟨hi, hname⟩
      exact ⟨(List.mem_filter.mp hi).1, hname⟩
    · rintro ⟨hi, hvisible, hname⟩
      have hplain : i.wildcard = false := by
        simp only [Import.visibleName] at hvisible
        split at hvisible <;> simp_all
      exact ⟨List.mem_filter.mpr ⟨hi, by simp [hplain]⟩, hvisible, hname⟩
  have hopens : ¬h.explicit.Opens reference name := by
    rintro ⟨base, hbase, -⟩
    rcases mem_bases.mp hbase with ⟨i, hi, hwildcard, -⟩ | hpackage
    · simp [explicit, hwildcard] at hi
    · simp [explicit] at hpackage
  rw [mem_candidates, himports]
  tauto

lemma SameImports.symm (hsame : h.SameImports h') : h'.SameImports h :=
  ⟨hsame.package.symm, fun i => (hsame.imports i).symm⟩

/-- The order of the imports changes the order of the candidates only. -/
theorem SameImports.mem_candidates_iff (hsame : h.SameImports h') :
    name ∈ h.candidates reference ↔ name ∈ h'.candidates reference := by
  simp only [mem_candidates, Imports, Opens, mem_bases, hsame.package, hsame.imports]

end Header

end SpecLens.Kotlin
