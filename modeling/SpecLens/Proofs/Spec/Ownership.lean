import Mathlib.Data.List.Find
import Mathlib.Data.List.Forall2
import Mathlib.Data.List.TakeWhile
import SpecLens.Proofs.Kotlin.Candidate
import SpecLens.Proofs.Kotlin.Lineage
import SpecLens.Proofs.Style.Registry
import SpecLens.Spec.Discovery

/-!
# The style that owns a declaration

Ownership depends on the set of names that the supertypes of a declaration may denote: neither the
order nor a repetition of imports or supertypes reaches it. Among several names it is the registry
that decides, not the way a name came about, so a wildcard import can win over an explicit one.
-/

namespace SpecLens

open Kotlin

namespace Kotlin

/-- The names that the supertypes of a declaration may denote are those a header tells. -/
def Declaration.ReadBy (h : Header) (d : Declaration) : Prop :=
  ∀ s ∈ d.supertypes, s.candidates = h.candidates s.text

/-- A declaration read by one header, and again by another with its supertypes rearranged: they
may come in another order and more or less often. -/
structure Rearranged (h h' : Header) (d d' : Declaration) : Prop where
  name : d.name = d'.name
  fqn : d.fqn = d'.fqn
  readBy : d.ReadBy h
  readBy' : d'.ReadBy h'
  texts : ∀ text, text ∈ d.supertypes.map (·.text) ↔ text ∈ d'.supertypes.map (·.text)

variable {h h' : Header} {all all' : List Declaration} {d d' e : Declaration} {n : Nat}
  {name : String}

lemma Rearranged.symm (hre : Rearranged h h' d d') : Rearranged h' h d' d :=
  ⟨hre.name.symm, hre.fqn.symm, hre.readBy', hre.readBy, fun text => (hre.texts text).symm⟩

lemma forall₂_split {α β : Type} {R : α → β → Prop} {before after : List α} {x : α} {ys : List β}
    (hys : List.Forall₂ R (before ++ x :: after) ys) :
    ∃ before' y after', ys = before' ++ y :: after' ∧ R x y ∧ List.Forall₂ R after after' := by
  induction before generalizing ys with
  | nil =>
    obtain ⟨y, after', hxy, hafter, rfl⟩ := List.forall₂_cons_left_iff.mp hys
    exact ⟨[], y, after', rfl, hxy, hafter⟩
  | cons b before ih =>
    obtain ⟨b', ys, -, hrest, rfl⟩ := List.forall₂_cons_left_iff.mp hys
    obtain ⟨before', y, after', rfl, hxy, hafter⟩ := ih hrest
    exact ⟨b' :: before', y, after', rfl, hxy, hafter⟩

lemma LocalParent.rearranged (hall : List.Forall₂ (Rearranged h h') all all')
    (hd : Rearranged h h' d d') (hparent : LocalParent all d e) :
    ∃ e', Rearranged h h' e e' ∧ LocalParent all' d' e' := by
  obtain ⟨⟨s, hs, hname⟩, before, after, rfl, hlater⟩ := hparent
  obtain ⟨before', e', after', rfl, he, hafter⟩ := forall₂_split hall
  refine ⟨e', he, ?_, before', after', rfl, fun x' hx' => ?_⟩
  · obtain ⟨s', hs', htext⟩ := List.mem_map.mp ((hd.texts s.text).mp (List.mem_map_of_mem hs))
    exact ⟨s', hs', by rw [htext, hname, he.name]⟩
  · -- What comes after `e'` has a counterpart of the same name after `e`.
    obtain ⟨x, hx, hxx'⟩ : ∃ x ∈ after, Rearranged h h' x x' := by
      obtain ⟨i, hi, rfl⟩ := List.getElem_of_mem hx'
      have hlt : i < after.length := hafter.length_eq ▸ hi
      exact ⟨after[i], List.getElem_mem hlt, hafter.get hlt hi⟩
    rw [← hxx'.name, ← he.name]
    exact hlater x hx

lemma Ascends.rearranged (hall : List.Forall₂ (Rearranged h h') all all')
    (hd : Rearranged h h' d d') (hchain : Ascends all d n e) :
    ∃ e', Rearranged h h' e e' ∧ Ascends all' d' n e' := by
  induction hchain with
  | refl => exact ⟨d', hd, .refl⟩
  | step _ hparent ih =>
    obtain ⟨e', he, hchain'⟩ := ih
    obtain ⟨f', hf, hparent'⟩ := hparent.rearranged hall he
    exact ⟨f', hf, hchain'.step hparent'⟩

lemma Rearranged.mem_candidates (hsame : h.SameImports h') (hre : Rearranged h h' d d')
    (hname : ∃ s ∈ d.supertypes, name ∈ s.candidates) :
    ∃ s ∈ d'.supertypes, name ∈ s.candidates := by
  obtain ⟨s, hs, hname⟩ := hname
  obtain ⟨s', hs', htext⟩ := List.mem_map.mp ((hre.texts s.text).mp (List.mem_map_of_mem hs))
  refine ⟨s', hs', ?_⟩
  rw [hre.readBy' s' hs', htext, ← hsame.mem_candidates_iff, ← hre.readBy s hs]
  exact hname

lemma map_fqn_rearranged (hall : List.Forall₂ (Rearranged h h') all all') :
    all.map (·.fqn) = all'.map (·.fqn) := by
  induction hall with
  | nil => rfl
  | cons hre _ ih => rw [List.map_cons, List.map_cons, hre.fqn, ih]

lemma forall₂_rearranged_symm (hall : List.Forall₂ (Rearranged h h') all all') :
    List.Forall₂ (Rearranged h' h) all' all :=
  (hall.imp fun _ _ => Rearranged.symm).flip

lemma mem_resolvedSupertypes_rearranged (hsame : h.SameImports h')
    (hfqn : (all.map (·.fqn)).Nodup) (hall : List.Forall₂ (Rearranged h h') all all')
    (hd : d ∈ all) (hd' : d' ∈ all') (hre : Rearranged h h' d d')
    (hname : name ∈ resolvedSupertypes all d) : name ∈ resolvedSupertypes all' d' := by
  obtain ⟨n, hn, e, hchain, hname⟩ := (mem_resolvedSupertypes hfqn hd).mp hname
  obtain ⟨e', he, hchain'⟩ := hchain.rearranged hall hre
  have hfqn' : (all'.map (·.fqn)).Nodup := map_fqn_rearranged hall ▸ hfqn
  exact (mem_resolvedSupertypes hfqn' hd').mpr ⟨n, hn, e', hchain', he.mem_candidates hsame hname⟩

end Kotlin

/-- Neither the order nor a repetition of imports or of supertypes changes which style owns which
declaration of a file. -/
theorem Discovery.styleFor?_rearranged (disc : Discovery) {h h' : Header}
    {all all' : List Declaration} (hsame : h.SameImports h') (hfqn : (all.map (·.fqn)).Nodup)
    (hall : List.Forall₂ (Rearranged h h') all all') :
    List.Forall₂ (fun d d' => disc.styleFor? all d = disc.styleFor? all' d') all all' := by
  refine List.forall₂_iff_zip.mpr ⟨hall.length_eq, fun {d d'} hzip => ?_⟩
  obtain ⟨hd, hd'⟩ := List.of_mem_zip hzip
  have hre : Rearranged h h' d d' := List.forall₂_zip hall hzip
  have hfqn' : (all'.map (·.fqn)).Nodup := map_fqn_rearranged hall ▸ hfqn
  refine disc.registry.forSupertypes?_congr fun name => ⟨fun hname => ?_, fun hname => ?_⟩
  · exact mem_resolvedSupertypes_rearranged hsame hfqn hall hd hd' hre hname
  · exact mem_resolvedSupertypes_rearranged hsame.symm hfqn' (forall₂_rearranged_symm hall)
      hd' hd hre.symm hname

/-- The header with an import of everything in some packages and of some names. -/
def importing (packages names : List String) : Header :=
  ⟨none, packages.map (⟨·, none, true⟩) ++ names.map (⟨·, none, false⟩)⟩

lemma readBy_classOf (h : Header) (fqn name : String) (supertypes : List String) :
    (classOf h fqn name supertypes).ReadBy h := by
  intro s hs
  obtain ⟨text, -, rfl⟩ := List.mem_map.mp hs
  rfl

lemma map_text_classOf (h : Header) (fqn name : String) (supertypes : List String) :
    (classOf h fqn name supertypes).supertypes.map (·.text) = supertypes := by
  rw [classOf, List.map_map]
  exact List.map_id supertypes

lemma rearranged_classOf {h h' : Header} {fqn name : String} {texts texts' : List String}
    (hmem : ∀ text, text ∈ texts ↔ text ∈ texts') :
    Rearranged h h' (classOf h fqn name texts) (classOf h' fqn name texts') :=
  ⟨rfl, rfl, readBy_classOf _ _ _ _, readBy_classOf _ _ _ _, by
    simpa only [map_text_classOf] using hmem⟩

/-- The imports and the supertypes in two orders, some of them repeated. -/
theorem styleFor?_rearranged_base :
    let h := importing ["io.kotest.core.spec.style", "com.base"] ["com.base.Marked"]
    let h' := importing ["com.base", "io.kotest.core.spec.style"]
      ["com.base.Marked", "com.base.Marked"]
    let all := [classOf h "Base" "Base" ["FunSpec", "Marked"], classOf h "S" "S" ["Marked", "Base"]]
    let all' := [classOf h' "Base" "Base" ["Marked", "FunSpec", "Marked"],
      classOf h' "S" "S" ["Base", "Marked"]]
    let disc := Discovery.ofRegistry .full
    h.SameImports h' ∧ (all.map (·.fqn)).Nodup ∧ List.Forall₂ (Rearranged h h') all all' ∧
      List.Forall₂ (fun d d' => disc.styleFor? all d = disc.styleFor? all' d') all all' ∧
      all.map (disc.styleFor? all) = [some .funStyle, some .funStyle] := by
  intro h h' all all' disc
  have hsub : ∀ i ∈ h.imports, i ∈ h'.imports := by decide
  have hsub' : ∀ i ∈ h'.imports, i ∈ h.imports := by decide
  have hsame : h.SameImports h' := ⟨rfl, fun i => ⟨hsub i, hsub' i⟩⟩
  have hfqn : (all.map (·.fqn)).Nodup := by decide
  have hall : List.Forall₂ (Rearranged h h') all all' :=
    .cons (rearranged_classOf (by grind)) (.cons (rearranged_classOf (by grind)) .nil)
  exact ⟨hsame, hfqn, hall, disc.styleFor?_rearranged hsame hfqn hall, by decide⟩

/-- The names that the supertypes of a declaration may denote without wildcard imports and without
the package. -/
def explicitNames (h : Header) (d : Declaration) : List String :=
  d.supertypes.flatMap fun s => h.explicit.candidates s.text

/-- No style that is registered before the first one of an explicit name has a base class that a
wildcard import or the package holds under a supertype. -/
def Undisturbed (r : Registry) (h : Header) (d : Declaration) : Prop :=
  ∀ s ∈ r.styles.takeWhile (fun s => !(explicitNames h d).contains s.fqn),
    ∀ t ∈ d.supertypes, ¬h.Opens t.text s.fqn

instance (r : Registry) (h : Header) (d : Declaration) : Decidable (Undisturbed r h d) :=
  inferInstanceAs (Decidable (∀ s ∈ List.takeWhile _ r.styles,
    ∀ t ∈ d.supertypes, ¬h.Opens t.text s.fqn))

variable {h h' : Header} {d d' : Declaration} {name : String}

lemma explicitNames_congr (himports : h.explicit = h'.explicit)
    (htexts : d.supertypes.map (·.text) = d'.supertypes.map (·.text)) :
    explicitNames h d = explicitNames h' d' := by
  have hmap : ∀ (h : Header) (d : Declaration),
      explicitNames h d = (d.supertypes.map (·.text)).flatMap h.explicit.candidates :=
    fun h d => (List.flatMap_map ..).symm
  rw [hmap, hmap, himports, htexts]

lemma mem_resolvedSupertypes_alone (hread : d.ReadBy h) : name ∈ resolvedSupertypes [d] d ↔
    name ∈ explicitNames h d ∨ ∃ t ∈ d.supertypes, h.Opens t.text name := by
  have halone : name ∈ resolvedSupertypes [d] d ↔ ∃ t ∈ d.supertypes, name ∈ t.candidates := by
    have hfqn : ([d].map (·.fqn)).Nodup := List.nodup_singleton d.fqn
    rw [mem_resolvedSupertypes hfqn List.mem_cons_self]
    constructor
    · rintro ⟨n, -, e, hchain, hname⟩
      obtain rfl := List.mem_singleton.mp (hchain.mem List.mem_cons_self)
      exact hname
    · exact fun hname => ⟨0, Nat.zero_le 7, d, .refl, hname⟩
  have hexplicit : ∀ t ∈ d.supertypes, (name ∈ t.candidates ↔
      name ∈ h.explicit.candidates t.text ∨ h.Opens t.text name) := by
    intro t ht
    rw [hread t ht, Header.mem_candidates_explicit, Header.mem_candidates, or_assoc]
  rw [halone, explicitNames, List.mem_flatMap, ← exists_or]
  refine exists_congr fun t => ?_
  rw [← and_or_left]
  exact and_congr_right fun ht => hexplicit t ht

lemma find?_eq_find?_iff {α : Type} {p q : α → Bool} {xs : List α} (hpq : ∀ a, p a → q a) :
    xs.find? q = xs.find? p ↔ ∀ a ∈ xs.takeWhile (fun a => !p a), q a = false := by
  induction xs with
  | nil => simp
  | cons x xs ih =>
    cases hp : p x with
    | true => simp [hp, hpq x hp]
    | false =>
      cases hq : q x with
      | true =>
        have hne : xs.find? p ≠ some x := fun hsome => by simp [List.find?_some hsome] at hp
        simp [hp, hq, hne.symm]
      | false => simp [hp, hq, ih]

lemma Discovery.styleFor?_eq_explicit_iff (disc : Discovery) (hread : d.ReadBy h) :
    disc.styleFor? [d] d = disc.registry.forSupertypes? (explicitNames h d) ↔
      Undisturbed disc.registry h d := by
  have hnames {s : Style} : s.fqn ∈ resolvedSupertypes [d] d ↔
      s.fqn ∈ explicitNames h d ∨ ∃ t ∈ d.supertypes, h.Opens t.text s.fqn :=
    mem_resolvedSupertypes_alone hread
  have hexplicit : ∀ s : Style, (explicitNames h d).contains s.fqn →
      (resolvedSupertypes [d] d).contains s.fqn := by
    intro s hs
    rw [List.contains_iff_mem] at hs ⊢
    exact hnames.mpr (.inl hs)
  refine (find?_eq_find?_iff hexplicit).trans (forall₂_congr fun s hs => ?_)
  have hnot : s.fqn ∉ explicitNames h d := by
    simpa using List.mem_takeWhile_imp hs
  simp [← Bool.not_eq_true, hnames, hnot]

/-- Explicit imports and the references as written decide which style owns the only class of a
file exactly as long as no style that is registered earlier is brought into scope otherwise. -/
theorem Discovery.styleFor?_explicit (disc : Discovery) (hread : d.ReadBy h)
    (hread' : d'.ReadBy h') (himports : h.explicit = h'.explicit)
    (htexts : d.supertypes.map (·.text) = d'.supertypes.map (·.text)) :
    (disc.styleFor? [d] d = disc.registry.forSupertypes? (explicitNames h d) ↔
        Undisturbed disc.registry h d) ∧
      (Undisturbed disc.registry h d → Undisturbed disc.registry h' d' →
        disc.styleFor? [d] d = disc.styleFor? [d'] d') := by
  refine ⟨disc.styleFor?_eq_explicit_iff hread, fun hfree hfree' => ?_⟩
  rw [(disc.styleFor?_eq_explicit_iff hread).mpr hfree,
    (disc.styleFor?_eq_explicit_iff hread').mpr hfree', explicitNames_congr himports htexts]

/-- An explicit import that selects a style, beside different wildcard imports. -/
theorem styleFor?_explicit_import :
    let h := importing ["com.other"] ["io.kotest.core.spec.style.FunSpec"]
    let h' := importing ["com.app", "com.base"] ["io.kotest.core.spec.style.FunSpec"]
    let d := classOf h "S" "S" ["FunSpec"]
    let d' := classOf h' "S" "S" ["FunSpec"]
    let disc := Discovery.ofRegistry .full
    d.ReadBy h ∧ d'.ReadBy h' ∧ h.explicit = h'.explicit ∧
      d.supertypes.map (·.text) = d'.supertypes.map (·.text) ∧
      Undisturbed disc.registry h d ∧ Undisturbed disc.registry h' d' ∧
      disc.styleFor? [d] d = disc.styleFor? [d'] d' ∧ disc.styleFor? [d] d = some .funStyle := by
  intro h h' d d' disc
  have hread : d.ReadBy h := readBy_classOf _ _ _ _
  have hread' : d'.ReadBy h' := readBy_classOf _ _ _ _
  have himports : h.explicit = h'.explicit := rfl
  have hfree : Undisturbed disc.registry h d := by decide
  have hfree' : Undisturbed disc.registry h' d' := by decide
  have htexts : d.supertypes.map (·.text) = d'.supertypes.map (·.text) := by
    rw [map_text_classOf, map_text_classOf]
  obtain ⟨-, hsame⟩ := disc.styleFor?_explicit hread hread' himports htexts
  exact ⟨hread, hread', himports, htexts, hfree, hfree', hsame hfree hfree', by decide⟩

/-- With the class of a foreign package imported by name, the wildcard import of a package that
holds a base class of the same name makes a spec of what is none without it. -/
theorem wildcard_over_explicit_import :
    let h := importing [] ["com.other.FunSpec"]
    let h' := importing ["io.kotest.core.spec.style"] ["com.other.FunSpec"]
    let d := classOf h "S" "S" ["FunSpec"]
    let d' := classOf h' "S" "S" ["FunSpec"]
    let disc := Discovery.ofRegistry .full
    d.ReadBy h ∧ d'.ReadBy h' ∧ h.explicit = h'.explicit ∧
      (∀ s ∈ d.supertypes, ∃ i ∈ h.imports, i.visibleName = some (firstSegment s.text)) ∧
      (∀ s ∈ d'.supertypes, ∃ i ∈ h'.imports, i.visibleName = some (firstSegment s.text)) ∧
      d.supertypes.map (·.text) = d'.supertypes.map (·.text) ∧
      disc.styleFor? [d] d = none ∧ disc.styleFor? [d'] d' = some .funStyle := by
  intro h h' d d' disc
  have himports : h.explicit = h'.explicit := rfl
  have htexts : d.supertypes.map (·.text) = d'.supertypes.map (·.text) := by
    rw [map_text_classOf, map_text_classOf]
  refine ⟨readBy_classOf _ _ _ _, readBy_classOf _ _ _ _, himports, ?_, ?_, htexts, ?_, ?_⟩ <;>
    decide

end SpecLens
