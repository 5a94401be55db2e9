import Mathlib.Data.List.Induction
import Mathlib.Data.List.Nodup
import SpecLens.Style.Registry

/-!
# Styles registered one by one

A registry is told by the styles that were registered and by their order. Its base classes stand in
the order in which each of them first came, and with each one stands the style that came last.
-/

namespace SpecLens

lemma eraseDups_append_singleton (names : List String) (name : String) :
    (names ++ [name]).eraseDups =
      names.eraseDups ++ if name ∈ names.eraseDups then [] else [name] := by
  rw [List.eraseDups_append]
  by_cases h : name ∈ names <;> simp [List.removeAll, List.eraseDups_cons, h]

/-- A name that comes again is found where it came first. -/
lemma find?_eraseDups (p : String → Bool) (names : List String) :
    names.eraseDups.find? p = names.find? p := by
  induction names using List.reverseRecOn with
  | nil => rfl
  | append_singleton names name ih =>
    rw [eraseDups_append_singleton, List.find?_append, List.find?_append, ih]
    split
    · rename_i h
      cases hfound : names.find? p with
      | some _ => rfl
      | none =>
        have hp := List.find?_eq_none.mp hfound name (List.mem_eraseDups.mp h)
        simp [hp]
    · rfl

namespace Registry

variable {s : Style} {r : Registry} {styles : List Style}

/-- No two styles of a registry have the same base class. -/
def Distinct (r : Registry) : Prop := (r.styles.map (·.fqn)).Nodup

lemma Distinct.register (h : r.Distinct) (s : Style) : (r.register s).Distinct := by
  rw [Distinct, Registry.register, map_fqn_insertStyle]
  split
  · exact h
  · rename_i hnew
    exact List.nodup_append'.mpr
      ⟨h, List.nodup_singleton _, List.disjoint_singleton.mpr hnew⟩

lemma insertStyle_of_not_mem (h : s.fqn ∉ styles.map (·.fqn)) :
    insertStyle s styles = styles ++ [s] := by
  induction styles with
  | nil => rfl
  | cons t rest ih =>
    rw [List.map_cons, List.mem_cons, not_or] at h
    rw [insertStyle, if_neg (Ne.symm h.1), ih h.2, List.cons_append]

lemma ofStyles_append (styles later : List Style) :
    ofStyles (styles ++ later) = later.foldl register (ofStyles styles) :=
  List.foldl_append

lemma ofStyles_append_singleton (styles : List Style) (s : Style) :
    ofStyles (styles ++ [s]) = (ofStyles styles).register s :=
  ofStyles_append styles [s]

lemma distinct_ofStyles (styles : List Style) : (ofStyles styles).Distinct := by
  induction styles using List.reverseRecOn with
  | nil => exact List.nodup_nil
  | append_singleton styles s ih =>
    rw [ofStyles_append_singleton]
    exact ih.register s

lemma map_fqn_ofStyles (styles : List Style) :
    (ofStyles styles).styles.map (·.fqn) = (styles.map (·.fqn)).eraseDups := by
  induction styles using List.reverseRecOn with
  | nil => rfl
  | append_singleton styles s ih =>
    rw [ofStyles_append_singleton, register, map_fqn_insertStyle, ih, List.map_append,
      List.map_singleton, eraseDups_append_singleton]
    split
    · rw [List.append_nil]
    · rfl

lemma forFqn?_ofStyles (styles : List Style) (fqn : String) :
    (ofStyles styles).forFqn? fqn = (styles.filter (·.fqn = fqn)).getLast? := by
  induction styles using List.reverseRecOn with
  | nil => rfl
  | append_singleton styles s ih =>
    rw [ofStyles_append_singleton, forFqn?, register, find?_insertStyle, List.filter_append,
      List.getLast?_append, ← ih, forFqn?]
    by_cases h : s.fqn = fqn <;> simp [h]

/-- Styles of different base classes stand as they were registered. -/
lemma styles_ofStyles (h : (styles.map (·.fqn)).Nodup) : (ofStyles styles).styles = styles := by
  induction styles using List.reverseRecOn with
  | nil => rfl
  | append_singleton styles s ih =>
    rw [List.map_append, List.nodup_append'] at h
    rw [ofStyles_append_singleton, register, ih h.1]
    exact insertStyle_of_not_mem (List.disjoint_singleton.mp h.2.2)

/-- The first style with a base class among the candidates is the style of the first such class. -/
lemma forSupertypes?_eq_bind (r : Registry) (candidates : List String) :
    r.forSupertypes? candidates =
      ((r.styles.map (·.fqn)).find? (· ∈ candidates)).bind r.forFqn? := by
  obtain ⟨styles⟩ := r
  unfold forSupertypes? forFqn?
  dsimp only
  induction styles with
  | nil => rfl
  | cons s rest ih =>
    by_cases h : s.fqn ∈ candidates
    · simp [h]
    · rw [List.find?_cons_of_neg (by simpa using h), ih, List.map_cons,
        List.find?_cons_of_neg (by simpa using h)]
      -- What is found further down is another class than the one that is passed over.
      cases hfound : (rest.map (·.fqn)).find? (· ∈ candidates) with
      | none => rfl
      | some fqn =>
        have hfqn : fqn ∈ candidates := by simpa using List.find?_some hfound
        have hne : s.fqn ≠ fqn := fun heq => h (heq ▸ hfqn)
        simp [hne]

/-- What registration starts from. -/
inductive Start where
  | empty
  | full
  | withDisabled (names : List String)

def Start.registry : Start → Registry
  | empty => Registry.empty
  | full => Registry.full
  | withDisabled names => Registry.withDisabled names

lemma nodup_fqn_builtin : (Style.builtin.map (·.fqn)).Nodup := by
  decide

lemma styles_full : Registry.full.styles = Style.builtin := styles_ofStyles nodup_fqn_builtin

lemma styles_withDisabled (names : List String) : (withDisabled names).styles =
    Style.builtin.filter fun s => !(names.map normalName).contains (normalName s.name) :=
  styles_ofStyles (nodup_fqn_builtin.sublist (List.filter_sublist.map _))

/-- At the start, every style stands as it was registered. -/
lemma Start.ofStyles_registry (start : Start) :
    ofStyles start.registry.styles = start.registry := by
  cases start with
  | empty => rfl
  | full =>
    show ofStyles Registry.full.styles = Registry.full
    rw [styles_full, Registry.full]
  | withDisabled names =>
    show ofStyles (Registry.withDisabled names).styles = Registry.withDisabled names
    rw [styles_withDisabled, Registry.withDisabled]

/-- After any run of registrations each base class has one style, the one registered last. The
classes stand in the order in which each was first registered, and of those among the candidates the
first one in this order owns a class, whichever way the candidates stand. -/
theorem registered_run (start : Start) (later : List Style) :
    let r := later.foldl register start.registry
    let registered := start.registry.styles ++ later
    (r.styles.map (·.fqn)).Nodup ∧
      (∀ fqn, r.forFqn? fqn = (registered.filter (·.fqn = fqn)).getLast?) ∧
      r.styles.map (·.fqn) = (registered.map (·.fqn)).eraseDups ∧
      ∀ candidates, r.forSupertypes? candidates =
        ((registered.map (·.fqn)).find? (· ∈ candidates)).bind r.forFqn? := by
  intro r registered
  have hr : r = ofStyles registered := by
    rw [ofStyles_append, start.ofStyles_registry]
  have horder : r.styles.map (·.fqn) = (registered.map (·.fqn)).eraseDups := by
    rw [hr, map_fqn_ofStyles]
  refine ⟨?_, fun fqn => ?_, horder, fun candidates => ?_⟩
  · rw [hr]
    exact distinct_ofStyles registered
  · rw [hr, forFqn?_ofStyles]
  · rw [forSupertypes?_eq_bind, horder, find?_eraseDups]

end Registry

end SpecLens
