import Mathlib.Data.List.Find
import SpecLens.Proofs.Style.Registration

/-!
# Styles found by name or by supertypes

The registry of a configuration holds built-in styles only, and their names tell them apart. The
names that leave a style out are those that find it. Among the names of supertypes the order makes
no difference.
-/

namespace SpecLens.Registry

variable {s t : Style} {r : Registry} {names : List String} {name : String}

lemma mem_builtin_of_withDisabled (h : t ∈ (withDisabled names).styles) : t ∈ Style.builtin := by
  rw [styles_withDisabled] at h
  exact (List.mem_filter.mp h).1

lemma nodup_name_builtin : (Style.builtin.map (normalName ·.name)).Nodup := by
  decide

/-- The name of a built-in style is the simple name of its base class. -/
lemma normalName_simpleName : ∀ s ∈ Style.builtin,
    normalName (simpleName s.fqn) = normalName s.name := by
  decide

/-- Whether a style goes by a name. -/
def answersTo (s : Style) (name : String) : Bool :=
  normalName s.name == normalName name || normalName (simpleName s.fqn) == normalName name

lemma answersTo_iff (hs : s ∈ Style.builtin) :
    answersTo s name = true ↔ normalName s.name = normalName name := by
  simp [answersTo, normalName_simpleName s hs]

/-- Among built-in styles, a name finds the one that has this name. -/
lemma byName?_eq_some_iff (hr : ∀ t ∈ r.styles, t ∈ Style.builtin) :
    r.byName? name = some s ↔ s ∈ r.styles ∧ normalName s.name = normalName name := by
  have hfind : r.byName? name = r.styles.find? (answersTo · name) := rfl
  have hfound {t : Style} (ht : r.styles.find? (answersTo · name) = some t) :
      t ∈ r.styles ∧ normalName t.name = normalName name := by
    have hmem := List.mem_of_find?_eq_some ht
    exact ⟨hmem, (answersTo_iff (hr t hmem)).mp (List.find?_some (p := (answersTo · name)) ht)⟩
  rw [hfind]
  refine ⟨hfound, fun ⟨hs, hname⟩ => ?_⟩
  have hsome : (r.styles.find? (answersTo · name)).isSome = true :=
    List.find?_isSome.mpr ⟨s, hs, (answersTo_iff (hr s hs)).mpr hname⟩
  obtain ⟨t, ht⟩ := Option.isSome_iff_exists.mp hsome
  obtain ⟨hmem, hname'⟩ := hfound ht
  rw [ht, List.inj_on_of_nodup_map nodup_name_builtin (hr t hmem) (hr s hs)
    (hname'.trans hname.symm)]

/-- A style of a configuration is found by its name. -/
theorem byName?_name (h : s ∈ (withDisabled names).styles) :
    (withDisabled names).byName? s.name = some s :=
  (byName?_eq_some_iff fun _ => mem_builtin_of_withDisabled).mpr ⟨h, rfl⟩

/-- Without some names there are left, in their order, the built-in styles that none of the names
finds, and a name finds what it finds among all styles, unless that is left out. -/
theorem withDisabled_agrees (names : List String) :
    full.styles = Style.builtin ∧
      (withDisabled names).styles =
        full.styles.filter (fun s => ∀ name ∈ names, full.byName? name ≠ some s) ∧
      ∀ name, (withDisabled names).byName? name =
        (full.byName? name).filter (· ∈ (withDisabled names).styles) := by
  have hfull {name : String} {s : Style} : full.byName? name = some s ↔
      s ∈ Style.builtin ∧ normalName s.name = normalName name := by
    rw [byName?_eq_some_iff (by simp [styles_full]), styles_full]
  refine ⟨styles_full, ?_, fun name => ?_⟩
  · rw [styles_withDisabled, styles_full]
    refine List.filter_congr fun s hs => ?_
    rw [Bool.eq_iff_iff, Bool.not_eq_true', Bool.eq_false_iff, ne_eq, List.contains_iff_mem,
      List.mem_map, decide_eq_true_iff, not_exists]
    refine forall_congr' fun name => ?_
    rw [not_and, ne_eq, hfull, and_iff_right hs, eq_comm]
  · ext s
    rw [Option.filter_eq_some_iff, byName?_eq_some_iff fun _ => mem_builtin_of_withDisabled, hfull,
      decide_eq_true_iff]
    constructor
    · rintro ⟨hs, hname⟩
      exact ⟨⟨mem_builtin_of_withDisabled hs, hname⟩, hs⟩
    · rintro ⟨⟨-, hname⟩, hs⟩
      exact ⟨hs, hname⟩

/-- Which style is found depends on which base classes are among the candidates. -/
lemma forSupertypes?_congr_fqn (r : Registry) {xs ys : List String}
    (h : ∀ s ∈ r.styles, (s.fqn ∈ xs ↔ s.fqn ∈ ys)) :
    r.forSupertypes? xs = r.forSupertypes? ys := by
  refine List.find?_congr fun s hs => ?_
  rw [Bool.eq_iff_iff, List.contains_iff_mem, List.contains_iff_mem, h s hs]

/-- Which style is found depends on the set of the candidates. -/
lemma forSupertypes?_congr (r : Registry) {xs ys : List String}
    (h : ∀ name, name ∈ xs ↔ name ∈ ys) : r.forSupertypes? xs = r.forSupertypes? ys :=
  r.forSupertypes?_congr_fqn fun s _ => h s.fqn

end SpecLens.Registry
