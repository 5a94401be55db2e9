import SpecLens.Proofs.Kotlin.Comment
import SpecLens.Proofs.Kotlin.Lineage

/-!
# Chains of supertypes among more declarations

Declarations that come to those of a file reach a chain of supertypes at one point only: where one
of them is now the last declaration of a name that a declaration on the chain extends. Nothing else
counts, in particular not what the new declarations stand in.
-/

namespace SpecLens.Kotlin

variable {all more : List Declaration} {old : Declaration → Prop} {f : Place → Place}
  {d e g x : Declaration} {n : Nat} {name : String}

/-- Where `d` or a declaration that it extends in `all` names a supertype, the last declaration of
that name in `more` is an old one. -/
def Unaffected (all more : List Declaration) (old : Declaration → Prop) (d : Declaration) : Prop :=
  ∀ n < 7, ∀ e, Ascends all d n e → ∀ s ∈ e.supertypes, ∀ x, lastNamed? more s.text = some x → old x

section

variable [DecidablePred old]

lemma lastNamed?_filter (h : ∀ x, lastNamed? more name = some x → old x) :
    lastNamed? (more.filter old) name = lastNamed? more name := by
  have hcomm : (more.filter old).filter (·.name = name) =
      (more.filter (·.name = name)).filter old := by
    simp only [List.filter_filter, Bool.and_comm]
  rw [lastNamed?, hcomm]
  cases hlast : (more.filter (·.name = name)).getLast? with
  | none =>
    rw [List.getLast?_eq_none_iff.mp hlast, lastNamed?, hlast]
    rfl
  | some x =>
    have hold := h x hlast
    obtain ⟨before, hbefore⟩ := List.getLast?_eq_some_iff.mp hlast
    rw [lastNamed?, hlast, hbefore, List.filter_append]
    simp [hold]

lemma localParents_of_old (hmore : more.filter old = all.map (Declaration.map f))
    (h : ∀ s ∈ e.supertypes, ∀ x, lastNamed? more s.text = some x → old x) :
    localParents more (e.map f) = (localParents all e).map (Declaration.map f) := by
  rw [← (keepsChains_map f).localParents_map, ← hmore, localParents, localParents]
  exact List.filterMap_congr fun s hs => (lastNamed?_filter (h s hs)).symm

lemma Unaffected.ascends_iff (h : Unaffected all more old d)
    (hmore : more.filter old = all.map (Declaration.map f)) (hn : n ≤ 7) :
    Ascends more (d.map f) n x ↔ ∃ e, Ascends all d n e ∧ e.map f = x := by
  induction n generalizing x with
  | zero =>
    constructor
    · rintro ⟨⟩
      exact ⟨d, .refl, rfl⟩
    · rintro ⟨e, ⟨⟩, rfl⟩
      exact .refl
  | succ n ih =>
    constructor
    · rintro (_ | ⟨hchain', hparent⟩)
      obtain ⟨e, hchain, rfl⟩ := (ih (by omega)).mp hchain'
      rw [← mem_localParents, localParents_of_old hmore (h n (by omega) e hchain),
        List.mem_map] at hparent
      obtain ⟨g, hg, rfl⟩ := hparent
      exact ⟨g, hchain.step (mem_localParents.mp hg), rfl⟩
    · rintro ⟨g, _ | ⟨hchain, hparent⟩, rfl⟩
      rename_i e
      refine .step ((ih (by omega)).mpr ⟨e, hchain, rfl⟩) ?_
      rw [← mem_localParents, localParents_of_old hmore (h n (by omega) e hchain)]
      exact List.mem_map_of_mem (mem_localParents.mpr hparent)

lemma nodup_of_more (hmore : more.filter old = all.map (Declaration.map f))
    (hfqn : (more.map (·.fqn)).Nodup) : (all.map (·.fqn)).Nodup := by
  have hsame : all.map (·.fqn) = (more.filter old).map (·.fqn) := by
    rw [hmore, List.map_map]
    rfl
  rw [hsame]
  exact hfqn.sublist (List.filter_sublist.map _)

lemma mem_more (hmore : more.filter old = all.map (Declaration.map f)) (hd : d ∈ all) :
    d.map f ∈ more ∧ old (d.map f) := by
  have hmem : d.map f ∈ more.filter old := hmore ▸ List.mem_map_of_mem hd
  simpa using List.mem_filter.mp hmem

/-- New declarations matter for a declaration exactly if one of them is in its lineage. -/
theorem unaffected_iff (hmore : more.filter old = all.map (Declaration.map f))
    (hfqn : (more.map (·.fqn)).Nodup) (hd : d ∈ all) :
    Unaffected all more old d ↔ ∀ x ∈ lineage more (d.map f), old x := by
  have hmem {x : Declaration} := mem_lineage (e := x) hfqn (mem_more hmore hd).1
  constructor
  · intro h x hx
    obtain ⟨n, hn, hchain'⟩ := hmem.mp hx
    obtain ⟨e, hchain, rfl⟩ := (h.ascends_iff hmore hn).mp hchain'
    exact (mem_more hmore (hchain.mem hd)).2
  · intro h
    have hold : ∀ n < 7, ∀ e : Declaration, Ascends more (d.map f) n (e.map f) →
        ∀ s ∈ e.supertypes, ∀ x, lastNamed? more s.text = some x → old x := by
      intro n hn e hchain s hs x hx
      have hparent : LocalParent more (e.map f) x :=
        mem_localParents.mp (List.mem_filterMap.mpr ⟨s, hs, hx⟩)
      exact h x (hmem.mpr ⟨n + 1, hn, hchain.step hparent⟩)
    -- Up to this point the chain is one of `more` as well, for all its declarations are old.
    intro n hn e hchain
    refine hold n hn e ?_
    induction hchain with
    | refl => exact .refl
    | @step n e g _ hparent ih =>
      have hchain := ih (by omega)
      refine hchain.step (mem_localParents.mp ?_)
      rw [localParents_of_old hmore (hold n (by omega) e hchain)]
      exact List.mem_map_of_mem (mem_localParents.mpr hparent)

lemma Unaffected.mem_resolvedSupertypes_iff (h : Unaffected all more old d)
    (hmore : more.filter old = all.map (Declaration.map f)) (hfqn : (more.map (·.fqn)).Nodup)
    (hd : d ∈ all) :
    name ∈ resolvedSupertypes more (d.map f) ↔ name ∈ resolvedSupertypes all d := by
  rw [mem_resolvedSupertypes hfqn (mem_more hmore hd).1,
    mem_resolvedSupertypes (nodup_of_more hmore hfqn) hd]
  refine exists_congr fun n => and_congr_right fun hn => ?_
  constructor
  · rintro ⟨x, hchain', hname⟩
    obtain ⟨e, hchain, rfl⟩ := (h.ascends_iff hmore hn).mp hchain'
    exact ⟨e, hchain, hname⟩
  · rintro ⟨e, hchain, hname⟩
    exact ⟨e.map f, (h.ascends_iff hmore hn).mpr ⟨e, hchain, rfl⟩, hname⟩

end

end SpecLens.Kotlin
