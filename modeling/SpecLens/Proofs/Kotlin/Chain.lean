import SpecLens.Proofs.Kotlin.Lineage

/-!
# Chains of supertypes among changed declarations

Which declarations of a file a chain of supertypes leads to depends on their names, on what they
extend, and on which of them have the same fully qualified name. A change that leaves these three
as they are can be made before or after the chain is followed.
-/

namespace SpecLens.Kotlin

/-- Declarations keep their names and references, and their fully qualified names stay apart. -/
structure KeepsChains (g : Declaration → Declaration) : Prop where
  name : ∀ d, (g d).name = d.name
  texts : ∀ d, (g d).supertypes.map (·.text) = d.supertypes.map (·.text)
  fqn : ∀ d e, (g d).fqn = (g e).fqn ↔ d.fqn = e.fqn

variable {g : Declaration → Declaration} {all frontier : List Declaration} {d e : Declaration}
  {seen seen' : List String}

namespace KeepsChains

lemma lastNamed?_map (h : KeepsChains g) (all : List Declaration) (name : String) :
    lastNamed? (all.map g) name = (lastNamed? all name).map g := by
  have hname : (fun d : Declaration => decide (d.name = name)) ∘ g =
      fun d => decide (d.name = name) :=
    funext fun d => by rw [Function.comp_apply, h.name]
  rw [lastNamed?, List.filter_map, List.getLast?_map, hname, lastNamed?]

lemma localParents_map (h : KeepsChains g) (all : List Declaration) (d : Declaration) :
    localParents (all.map g) (g d) = (localParents all d).map g := by
  have htexts (all : List Declaration) (d : Declaration) :
      localParents all d = (d.supertypes.map (·.text)).filterMap (lastNamed? all) := by
    rw [localParents, List.filterMap_map]
    rfl
  rw [htexts, htexts, h.texts, List.map_filterMap]
  exact List.filterMap_congr fun text _ => h.lastNamed?_map all text

lemma newcomers_map (h : KeepsChains g) (hseen : ∀ d, (g d).fqn ∈ seen' ↔ d.fqn ∈ seen)
    (frontier : List Declaration) :
    newcomers seen' (frontier.map g) = (newcomers seen frontier).map g := by
  induction frontier generalizing seen seen' with
  | nil => rfl
  | cons d rest ih =>
    have hcons : ∀ e, (g e).fqn ∈ (g d).fqn :: seen' ↔ e.fqn ∈ d.fqn :: seen := fun e => by
      rw [List.mem_cons, List.mem_cons, h.fqn, hseen]
    rw [List.map_cons, newcomers, newcomers, ih hseen, ih hcons]
    by_cases hmem : d.fqn ∈ seen
    · rw [if_pos hmem, if_pos ((hseen d).mpr hmem)]
    · rw [if_neg hmem, if_neg (mt (hseen d).mp hmem), List.map_cons]

lemma generations_map (h : KeepsChains g) (all : List Declaration) (depth : Nat)
    (hseen : ∀ d, (g d).fqn ∈ seen' ↔ d.fqn ∈ seen) (frontier : List Declaration) :
    generations (all.map g) depth seen' (frontier.map g) =
      (generations all depth seen frontier).map g := by
  induction depth generalizing seen seen' frontier with
  | zero => rfl
  | succ depth ih =>
    have hnext (fresh : List Declaration) :
        (fresh.map g).flatMap (localParents (all.map g)) =
          (fresh.flatMap (localParents all)).map g := by
      simp only [List.flatMap_map, h.localParents_map, List.map_flatMap]
    have hseen' (fresh : List Declaration) (d : Declaration) :
        (g d).fqn ∈ seen' ++ (fresh.map g).map (·.fqn) ↔ d.fqn ∈ seen ++ fresh.map (·.fqn) := by
      simp only [List.mem_append, hseen, List.mem_map, exists_exists_and_eq_and, h.fqn]
    simp only [generations, h.newcomers_map hseen, hnext, List.isEmpty_map, List.map_append,
      ih (hseen' _)]
    split <;> rfl

/-- A chain is followed among the changed declarations as among the others. -/
theorem lineage_map (h : KeepsChains g) (all : List Declaration) (d : Declaration) :
    lineage (all.map g) (g d) = (lineage all d).map g :=
  h.generations_map all maxLineage (fun _ => by simp) [d]

end KeepsChains

/-- A chain of supertypes does not leave the file. -/
lemma mem_of_mem_lineage (hd : d ∈ all) (he : e ∈ lineage all d) : e ∈ all := by
  have hgenerations (depth : Nat) (seen : List String) (frontier : List Declaration)
      (hfrontier : ∀ x ∈ frontier, x ∈ all) :
      ∀ x ∈ generations all depth seen frontier, x ∈ all := by
    induction depth generalizing seen frontier with
    | zero => simp [generations]
    | succ depth ih =>
      have hfresh := (newcomers_sublist seen frontier).subset
      intro x hx
      rw [generations, List.mem_append] at hx
      rcases hx with hx | hx
      · exact hfrontier x (hfresh hx)
      · split at hx
        · cases hx
        · exact ih _ _ (fun _ => mem_of_mem_next) x hx
  exact hgenerations maxLineage [] [d] (by simpa using hd) e he

end SpecLens.Kotlin
