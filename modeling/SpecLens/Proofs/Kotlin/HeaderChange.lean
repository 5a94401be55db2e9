import SpecLens.Proofs.Kotlin.Chain
import SpecLens.Proofs.Spec.Body

/-!
# Declarations read with another header

The header of a file decides which package its declarations are in and what their supertypes may
denote. It does not decide which declarations there are or which of them extend each other.
-/

namespace SpecLens.Kotlin

open Place

/-- A header without package and imports. -/
def Header.empty : Header := ⟨none, []⟩

/-- The declarations of a file as another header reads them. -/
def declarationsWith (src : Source) (h : Header) : List Declaration :=
  declarationsUnder src h [] src.root [] src.root.children 0

/-- A declaration that was read without a header, read with one. -/
def Declaration.under (h : Header) (d : Declaration) : Declaration :=
  { d with
    fqn := h.qualify d.fqn
    supertypes := d.supertypes.map fun s => ⟨s.text, h.candidates s.text⟩ }

variable {src : Source} {h h' : Header} {outer : List String} {p : Place} {d e : Declaration}
  {all : List Declaration} {name : String}

lemma declarationsWith_read (src : Source) :
    declarationsWith src (.read src) = declarations src := rfl

lemma declarationAt_under (src : Source) (h : Header) (outer : List String) (p : Place) :
    declarationAt src h outer p = (declarationAt src .empty outer p).under h := by
  simp [declarationAt, Declaration.under, Header.empty, Header.qualify]

lemma declarationsUnder_under (hchildren : ∀ c ∈ p.children,
      declarationsOf src h outer c.node c.above =
        (declarationsOf src .empty outer c.node c.above).map (.under h)) :
    declarationsUnder src h outer p.node p.above p.node.children 0 =
      (declarationsUnder src .empty outer p.node p.above p.node.children 0).map (.under h) := by
  rw [declarationsUnder_eq, declarationsUnder_eq, List.map_flatMap]
  apply List.flatMap_congr
  intro c hc
  rw [hchildren c hc]
  split <;> rfl

lemma declarationsOf_under (src : Source) (h : Header) (outer : List String) (p : Place) :
    declarationsOf src h outer p.node p.above =
      (declarationsOf src .empty outer p.node p.above).map (.under h) := by
  induction p using inductionOn generalizing outer with
  | step p ih =>
    have hunder (names : List String) := declarationsUnder_under fun c hc => ih c hc names
    rw [declarationsOf_eq, declarationsOf_eq src .empty, hunder, hunder, declarationAt_under src h]
    split <;> rfl

lemma declarationsWith_eq_map (src : Source) (h : Header) :
    declarationsWith src h = (declarationsWith src .empty).map (.under h) :=
  declarationsUnder_under (p := src.rootPlace) fun c _ => declarationsOf_under src h [] c

/-- The declarations of a file are those that are read without its header, put under it. -/
lemma declarations_eq_map (src : Source) :
    declarations src = (declarationsWith src .empty).map (.under (.read src)) :=
  declarationsWith_eq_map src _

lemma qualify_inj (h : Header) {name name' : String} :
    h.qualify name = h.qualify name' ↔ name = name' := by
  cases hpackage : h.package with
  | none => simp [Header.qualify, hpackage]
  | some package => simp [Header.qualify, hpackage, String.append_right_inj]

/-- Two packages give a name two qualified names. -/
lemma qualify_eq_iff : h.qualify name = h'.qualify name ↔ h.package = h'.package := by
  have hlonger (package : String) : package ++ "." ++ name ≠ name := fun heq => by
    have hlength := congrArg String.length heq
    simp only [String.length_append] at hlength
    exact absurd hlength (by simp)
  rw [Header.qualify, Header.qualify]
  cases h.package with
  | none =>
    cases h'.package with
    | none => simp
    | some package => exact iff_of_false (hlonger package).symm (by simp)
  | some package =>
    cases h'.package with
    | none => exact iff_of_false (hlonger package) (by simp)
    | some package' => simp [← String.toList_inj]

lemma keepsChains_under (h : Header) : KeepsChains (Declaration.under h) where
  name _ := rfl
  texts d := by simp [Declaration.under]
  fqn _ _ := qualify_inj h

/-- The names that the supertypes of a declaration may denote, as a header reads them. -/
lemma mem_resolvedSupertypes_under :
    name ∈ resolvedSupertypes (all.map (.under h)) (d.under h) ↔
      ∃ e ∈ lineage all d, ∃ s ∈ e.supertypes, name ∈ h.candidates s.text := by
  rw [resolvedSupertypes, (keepsChains_under h).lineage_map, List.flatMap_map]
  simp [Declaration.under]

lemma mem_declarationsWith (hd : d ∈ declarationsWith src h) :
    ∃ outer q, src.Has q ∧ d = declarationAt src h outer q := by
  have heq := declarationsUnder_eq src h [] src.rootPlace
  rw [declarationsWith] at hd
  rw [show declarationsUnder src h [] src.root [] src.root.children 0 = _ from heq] at hd
  obtain ⟨c, hc, hd⟩ := List.mem_flatMap.mp hd
  split at hd
  · obtain ⟨q, outer, hq, -, rfl⟩ := mem_declarationsOf hd
    exact ⟨outer, q, (below_of_mem_children hc).trans hq, rfl⟩
  · cases hd

end SpecLens.Kotlin
