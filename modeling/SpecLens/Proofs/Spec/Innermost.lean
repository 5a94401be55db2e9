import SpecLens.Proofs.Spec.Enclosing
import SpecLens.Proofs.Spec.Listing

/-!
# The innermost spec and test

The lookup at an offset goes through the declarations from the last to the first, asks the leaf for
a test, and climbs from it if the leaf knows none. Its answer is the innermost declaration with a
style around the offset and the innermost recognized node below that one: neither the order of the
list nor the question to the leaf has a part in it.
-/

namespace SpecLens

open Kotlin Place

namespace Discovery

variable {d : Discovery} {src : Source} {decl : Declaration} {s : Style} {offset : Nat} {n : Place}

/-- A place around the offset where a declaration stands that has a style. -/
def Owned (d : Discovery) (src : Source) (offset : Nat) (p : Place) : Prop :=
  p.node.covers offset = true ∧ ∃ decl ∈ declarations src, decl.place = p ∧
    (d.styleFor? (declarations src) decl).isSome = true

/-- The owners of the declarations around an offset. -/
def ownersAround (d : Discovery) (src : Source) (offset : Nat) : List (Declaration × Style) :=
  (d.owners src).filter (·.1.place.node.covers offset)

lemma owner?_eq_getLast? (d : Discovery) (src : Source) (offset : Nat) :
    d.owner? (declarations src) offset = (d.ownersAround src offset).getLast? := by
  rw [owner?, List.filter_reverse, ← List.getLast?_filterMap, List.filterMap_filter, ownersAround,
    owners, List.filter_filterMap]
  congr 2
  funext decl
  cases d.styleFor? (declarations src) decl with
  | none => simp
  | some s => simp [Option.filter]

lemma mem_ownersAround : (decl, s) ∈ d.ownersAround src offset ↔
    decl ∈ declarations src ∧ d.styleFor? (declarations src) decl = some s ∧
      decl.place.node.covers offset = true := by
  rw [ownersAround, List.mem_filter, mem_owners, and_assoc]

lemma owned_iff {p : Place} : d.Owned src offset p ↔
    p ∈ (d.ownersAround src offset).map (·.1.place) := by
  rw [List.mem_map]
  constructor
  · rintro ⟨hcovers, decl, hdecl, rfl, hsome⟩
    obtain ⟨s, hs⟩ := Option.isSome_iff_exists.mp hsome
    exact ⟨(decl, s), mem_ownersAround.mpr ⟨hdecl, hs, hcovers⟩, rfl⟩
  · rintro ⟨⟨decl, s⟩, ho, rfl⟩
    obtain ⟨hdecl, hs, hcovers⟩ := mem_ownersAround.mp ho
    exact ⟨hcovers, decl, hdecl, rfl, by simp [hs]⟩

lemma getLast?_ownersAround (h : src.WellNested) {p : Place} :
    ((d.ownersAround src offset).map (·.1.place)).getLast? = some p ↔
      Innermost (d.Owned src offset) p := by
  rw [Innermost, owned_iff]
  simp only [owned_iff]
  apply h.nested.getLast?_eq_some_iff
  · intro x hx
    obtain ⟨hcovers, decl, hdecl, rfl, -⟩ := owned_iff.mpr hx
    exact ⟨(mem_declarations hdecl).1, hcovers⟩
  · rw [List.pairwise_map]
    exact (owners_ordered d src).filter _

/-- The last owner in the list is the innermost one. -/
lemma owner?_eq_some_iff (h : src.WellNested) :
    d.owner? (declarations src) offset = some (decl, s) ↔
      (decl, s) ∈ d.owners src ∧ Innermost (d.Owned src offset) decl.place := by
  rw [owner?_eq_getLast?, ← getLast?_ownersAround h, List.getLast?_map]
  constructor
  · intro hlast
    exact ⟨(List.mem_filter.mp (List.mem_of_getLast? hlast)).1, by rw [hlast]; rfl⟩
  · rintro ⟨ho, hplace⟩
    obtain ⟨⟨decl', s'⟩, hlast, hplace⟩ := Option.map_eq_some_iff.mp hplace
    have ho' := (List.mem_filter.mp (List.mem_of_getLast? hlast)).1
    -- The place determines the owner, as no declaration is listed twice.
    have hplaces : ((d.owners src).map (·.1.place)).Nodup := by
      rw [List.Nodup, List.pairwise_map]
      exact owners_pairwise d src
    rw [hlast, List.inj_on_of_nodup_map hplaces ho' ho hplace]

lemma owner?_eq_none_iff : d.owner? (declarations src) offset = none ↔
    ∀ decl ∈ declarations src, decl.place.node.covers offset = true →
      d.styleFor? (declarations src) decl = none := by
  rw [owner?_eq_getLast?, List.getLast?_eq_none_iff, List.eq_nil_iff_forall_not_mem]
  constructor
  · intro h decl hdecl hcovers
    rw [Option.eq_none_iff_forall_ne_some]
    intro s hs
    exact h (decl, s) (mem_ownersAround.mpr ⟨hdecl, hs, hcovers⟩)
  · rintro h ⟨decl, s⟩ ho
    obtain ⟨hdecl, hs, hcovers⟩ := mem_ownersAround.mp ho
    simp [h decl hdecl hcovers] at hs

/-- A node around the offset, strictly below a declaration, that a style recognizes. -/
def Recognized (src : Source) (decl : Declaration) (s : Style) (offset : Nat) (n : Place) : Prop :=
  Below decl.place n ∧ n ≠ decl.place ∧ n.node.covers offset = true ∧
    (s.test? src n).isSome = true

lemma recognized_iff (hdecl : decl ∈ declarations src) :
    Recognized src decl s offset n ↔ n ∈ marked src decl s offset := by
  rw [Recognized, mem_marked]
  constructor
  · rintro ⟨hbelow, -, hrest⟩
    exact ⟨hbelow, hrest⟩
  · rintro ⟨hbelow, hcovers, hsome⟩
    refine ⟨hbelow, ?_, hcovers, hsome⟩
    rintro rfl
    simp [test?_declaration hdecl] at hsome

lemma innermost?_eq_some_iff_recognized (h : src.WellNested) (hdecl : decl ∈ declarations src) :
    innermost? src decl s offset = some n ↔ Innermost (Recognized src decl s offset) n := by
  rw [innermost?_eq_some_iff h hdecl, Innermost, recognized_iff hdecl]
  simp only [recognized_iff hdecl]

lemma testAt?_eq_iff (h : src.WellNested) (hdecl : decl ∈ declarations src)
    (hcovers : decl.place.node.covers offset = true) {t : Option Test} :
    testAt? src decl s offset = t ↔
      (∃ n, Innermost (Recognized src decl s offset) n ∧ t = s.test? src n) ∨
        (∀ n, ¬Recognized src decl s offset n) ∧ t = none := by
  rw [testAt?_eq h hdecl hcovers]
  cases hfound : innermost? src decl s offset with
  | none =>
    have hnone : ∀ n, ¬Recognized src decl s offset n := by
      intro n hn
      rw [recognized_iff hdecl, List.getLast?_eq_none_iff.mp hfound] at hn
      simp at hn
    constructor
    · rintro rfl
      exact .inr ⟨hnone, rfl⟩
    · rintro (⟨n, hn, -⟩ | ⟨-, rfl⟩)
      · exact (hnone n hn.1).elim
      · rfl
  | some m =>
    have hm := (innermost?_eq_some_iff_recognized h hdecl).mp hfound
    constructor
    · rintro rfl
      exact .inl ⟨m, hm, rfl⟩
    · rintro (⟨n, hn, rfl⟩ | ⟨hnone, -⟩)
      · rw [hn.unique hm]
        rfl
      · exact (hnone m hm.1).elim

/-- Nothing is found at an offset if and only if no declaration around it has a style. Otherwise the
location names the innermost of these declarations and its style, and its test is that of the
innermost recognized node around the offset strictly below. Without the question to the leaf the
climb finds the same test. -/
theorem enclosing_eq_innermost (d : Discovery) (h : src.WellNested) (offset : Nat) :
    (d.enclosing src offset = none ↔
      ∀ decl ∈ declarations src, decl.place.node.covers offset = true →
        d.styleFor? (declarations src) decl = none) ∧
    (∀ loc, d.enclosing src offset = some loc ↔
      ∃ decl s, (decl, s) ∈ d.owners src ∧ Innermost (d.Owned src offset) decl.place ∧
        loc.specName = decl.name ∧ loc.specFqn = decl.fqn ∧ loc.style = s.name ∧
        ((∃ n, Innermost (Recognized src decl s offset) n ∧ loc.test = s.test? src n) ∨
          (∀ n, ¬Recognized src decl s offset n) ∧ loc.test = none)) ∧
    ∀ decl s, d.owner? (declarations src) offset = some (decl, s) →
      testAt? src decl s offset = (src.leafAt offset).bind fun leaf =>
        (leaf.selfAndAncestors.takeWhile fun p => !p.same decl.place).findSome? (s.test? src) := by
  refine ⟨?_, fun loc => ?_, fun decl s howner => ?_⟩
  · rw [enclosing, Option.map_eq_none_iff, owner?_eq_none_iff]
  · constructor
    · intro hloc
      obtain ⟨⟨decl, s⟩, howner, rfl⟩ := Option.map_eq_some_iff.mp hloc
      obtain ⟨hdecl, hcovers, -⟩ := owner?_eq_some howner
      obtain ⟨ho, hinner⟩ := (owner?_eq_some_iff h).mp howner
      exact ⟨decl, s, ho, hinner, rfl, rfl, rfl, (testAt?_eq_iff h hdecl hcovers).mp rfl⟩
    · rintro ⟨decl, s, ho, hinner, hname, hfqn, hstyle, htest⟩
      have howner := (owner?_eq_some_iff h).mpr ⟨ho, hinner⟩
      have hfound := (testAt?_eq_iff h (mem_owners.mp ho).1 hinner.1.1).mpr htest
      rw [enclosing, howner, Option.map_some]
      dsimp only
      rw [hfound, ← hname, ← hfqn, ← hstyle]
  · obtain ⟨hdecl, hcovers, -⟩ := owner?_eq_some howner
    obtain ⟨leaf, hleaf⟩ := h.leafAt_isSome (mem_declarations hdecl).1 hcovers
    rw [testAt?_eq h hdecl hcovers, hleaf, Option.bind_some,
      ← findSome?_climb h hdecl hcovers hleaf, climb]

end Discovery

/-- Within the inner spec the innermost declaration is that spec, not the one around it. -/
theorem enclosing_in_nestedSpec : nestedSpec.WellNested ∧
    ∃ decl s, Innermost ((Discovery.ofConfig .standard).Owned nestedSpec 114) decl.place ∧
      decl.fqn = "S.O" ∧
      ∃ n t, Innermost (Discovery.Recognized nestedSpec decl s 114) n ∧
        s.test? nestedSpec n = some t ∧ t.name.name = "l" := by
  have hfound : ∃ loc ∈ (Discovery.ofConfig .standard).enclosing nestedSpec 114,
      loc.specFqn = "S.O" ∧ ∃ t ∈ loc.test, t.name.name = "l" := by
    decide +kernel
  obtain ⟨loc, hloc, hspec, t, ht, hname⟩ := hfound
  obtain ⟨-, hlocation, -⟩ :=
    (Discovery.ofConfig .standard).enclosing_eq_innermost nestedSpec_wellNested 114
  obtain ⟨decl, s, -, hdecl, -, hfqn, -, htest⟩ := (hlocation loc).mp hloc
  refine ⟨nestedSpec_wellNested, decl, s, hdecl, hfqn ▸ hspec, ?_⟩
  rcases htest with ⟨n, hn, htest⟩ | ⟨-, hnone⟩
  · exact ⟨n, t, hn, htest ▸ ht, hname⟩
  · simp [hnone] at ht

end SpecLens
