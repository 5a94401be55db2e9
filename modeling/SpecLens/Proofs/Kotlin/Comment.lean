import SpecLens.Proofs.Kotlin.Chain
import SpecLens.Proofs.Kotlin.SpareAccess
import SpecLens.Proofs.Kotlin.Walk
import SpecLens.Proofs.Spec.Body

/-!
# Declarations without comments

What a file declares is read off named children that are no comments, off the child that fills the
name field, and off texts. Of all these nothing is lost with the comments, so the declarations
keep their names and supertypes, and so does every chain of supertypes.
-/

namespace SpecLens

open Kotlin Place Text

/-- The place in the tree without comments. -/
abbrev Place.withoutComments (p : Place) : Place := p.without isBareComment

/-- A source without the comments in its tree that hold nothing. -/
abbrev Source.withoutComments (src : Source) : Source := src.without isBareComment

/-- What the grammar promises of comments: they fill no name field, none is a template entry, and
each has some text. -/
structure Source.PlainComments (src : Source) : Prop where
  unnamed : ∀ p ∈ src.rootPlace.preorder, isBareComment p = true → p.node.tag.isName = false
  noEntry : ∀ p ∈ src.rootPlace.preorder, isBareComment p = true → isEntryKind p.kind = false
  text : ∀ p ∈ src.rootPlace.preorder, isBareComment p = true → p.start < p.stop

namespace Kotlin

variable {src : Source} {p q c : Place}

lemma isBareComment_iff : isBareComment p = true ↔
    p.parent.isSome = true ∧ p.node.isComment = true ∧ p.node.children = [] := by
  simp [isBareComment, and_assoc]

lemma isBareComment_of_named (h : p ∈ q.namedChildren) : isBareComment p = false := by
  have hproper := (List.mem_filter.mp h).2
  simp only [Bool.and_eq_true, Bool.not_eq_true'] at hproper
  simp [isBareComment, hproper.2]

lemma isBareComment_of_child (h : c ∈ p.children) : isBareComment p = false := by
  obtain ⟨index, child, hchild, -⟩ := mem_children.mp h
  have hne : p.node.children ≠ [] := List.ne_nil_of_mem (List.mem_of_getElem? hchild)
  simp [isBareComment, hne]

lemma isBareComment_root (src : Source) : isBareComment src.rootPlace = false := rfl

lemma children_withoutComments (h : isBareComment p = false) :
    p.withoutComments.children =
      (p.children.filter fun c => !isBareComment c).map withoutComments := by
  rw [children_without h, Source.Spares.flatMap_surface]
  exact fun c _ hc => (isBareComment_iff.mp hc).2.2

lemma namedChildren_withoutComments (h : isBareComment p = false) :
    p.withoutComments.namedChildren = p.namedChildren.map withoutComments := by
  rw [namedChildren, children_withoutComments h, List.filter_map, List.filter_filter, namedChildren]
  apply congrArg
  apply List.filter_congr
  intro c hc
  cases hbare : isBareComment c with
  | false => simp
  | true => simp [(isBareComment_iff.mp hbare).2.1]

/-- Comments add nothing to what is collected from children. -/
lemma flatMap_children_withoutComments {α : Type} (h : isBareComment p = false)
    {f f' : Place → List α} (hcomment : ∀ c ∈ p.children, isBareComment c = true → f c = [])
    (hkept : ∀ c ∈ p.children, isBareComment c = false → f' c.withoutComments = f c) :
    p.withoutComments.children.flatMap f' = p.children.flatMap f := by
  rw [children_withoutComments h, List.flatMap_map, flatMap_filter]
  apply List.flatMap_congr
  intro c hc
  cases hbare : isBareComment c with
  | false => simp [hkept c hc hbare]
  | true => simp [hcomment c hc hbare]

lemma nameChild_withoutComments (hplain : src.PlainComments) (hp : src.Has p)
    (h : isBareComment p = false) :
    p.withoutComments.nameChild = p.nameChild.map withoutComments := by
  rw [nameChild, children_withoutComments h, List.find?_map, ← List.head?_filter,
    List.filter_filter, nameChild, ← List.head?_filter]
  apply congrArg (fun l : List Place => l.head?.map withoutComments)
  apply List.filter_congr
  intro c hc
  cases hbare : isBareComment c with
  | false => simp
  | true => simp [hplain.unnamed c (mem_preorder.mpr (hp.child hc rfl)) hbare]

lemma declarationName?_withoutComments (hplain : src.PlainComments) (hp : src.Has p)
    (h : isBareComment p = false) :
    declarationName? p.withoutComments = (declarationName? p).map withoutComments := by
  have hnames : isIdentifier ∘ withoutComments = isIdentifier :=
    funext fun c => isIdentifier_without isBareComment c
  rw [declarationName?, nameChild_withoutComments hplain hp h, namedChildren_withoutComments h,
    List.find?_map, hnames, declarationName?, Option.map_or]

lemma entriesUnder_withoutComments (h : isBareComment p = false) :
    Header.entriesUnder p.withoutComments.node p.withoutComments.above
        p.withoutComments.node.children 0 =
      (Header.entriesUnder p.node p.above p.node.children 0).map withoutComments := by
  induction p using inductionOn with
  | step p ih =>
    rw [entriesUnder_eq, entriesUnder_eq, List.map_flatMap]
    apply flatMap_children_withoutComments h
    · intro c hc hbare
      simp [(isBareComment_iff.mp hbare).2.1]
    · intro c hc hkept
      rw [named_without, isComment_without, entriesOf_eq, entriesOf_eq c, kind_without, ih c hc hkept]
      split
      · split <;> rfl
      · rfl

lemma read_withoutComments (src : Source) : Header.read src.withoutComments = Header.read src := by
  have hentries := entriesUnder_withoutComments (isBareComment_root src)
  have hadd (h : Header) (p : Place) :
      Header.add src.withoutComments h p.withoutComments = Header.add src h p := by
    simp [Header.add]
  rw [Header.read, Header.read]
  rw [show Header.entriesUnder src.withoutComments.root [] src.withoutComments.root.children 0 = _
    from hentries, List.foldl_map]
  simp only [hadd]
  rfl

lemma delegationSpecifiers_withoutComments (h : isBareComment p = false) :
    delegationSpecifiers p.withoutComments = (delegationSpecifiers p).map withoutComments := by
  rw [delegationSpecifiers, namedChildren_withoutComments h, delegationSpecifiers, List.flatMap_map,
    List.map_flatMap]
  apply List.flatMap_congr
  intro c hc
  rw [namedChildren_withoutComments (isBareComment_of_named hc), kind_without, List.filter_map]
  split
  · rfl
  · split
    · simp [Function.comp_def]
    · rfl

lemma isBareComment_of_mem_delegationSpecifiers (h : q ∈ delegationSpecifiers p) :
    isBareComment q = false := by
  obtain ⟨c, hc, hq⟩ := List.mem_flatMap.mp h
  split at hq
  · exact List.mem_singleton.mp hq ▸ isBareComment_of_named hc
  · split at hq
    · exact isBareComment_of_named (List.mem_filter.mp hq).1
    · simp at hq

lemma userTypeOf_withoutComments (h : isBareComment p = false) :
    userTypeOf p.withoutComments.node p.withoutComments.above =
      (userTypeOf p.node p.above).map withoutComments := by
  induction p using inductionOn with
  | step p ih =>
    rw [userTypeOf_eq, userTypeOf_eq p, kind_without, userTypeUnder_eq, userTypeUnder_eq,
      children_withoutComments h, ← List.head?_filterMap, ← List.head?_filterMap,
      List.filterMap_map, List.filterMap_filter]
    split
    · rfl
    · rw [← List.head?_map, List.map_filterMap]
      apply congrArg
      apply List.filterMap_congr
      intro c hc
      have htyped : typedNode c.withoutComments.node = typedNode c.node :=
        congrArg (fun tag => typedNode (.node tag [])) (tag_without isBareComment c)
      cases hbare : isBareComment c with
      | true => simp [typedNode, (isBareComment_iff.mp hbare).2.1]
      | false =>
        simp only [Bool.not_false, if_true, Function.comp_apply, htyped, ih c hc hbare]
        split <;> rfl

lemma segmentsAt_of_comment (h : isBareComment c = true) : segmentsAt src c = [] := by
  obtain ⟨-, hcomment, hnone⟩ := isBareComment_iff.mp h
  have hkind : containsText "comment".toList c.kind.toList = true := hcomment
  have hidentifier : isIdentifier c = false := by
    rw [← Bool.not_eq_true, isIdentifier, List.contains_iff_mem]
    intro hmem
    have hall : ∀ kind ∈ identifierKinds, containsText "comment".toList kind.toList = false := by
      decide
    rw [hall c.kind hmem] at hkind
    cases hkind
  simp [segmentsAt, hidentifier, segmentsOf_eq, children, hnone]

lemma segmentsOf_withoutComments (h : isBareComment p = false) :
    segmentsOf src.withoutComments p.withoutComments.node = segmentsOf src p.node := by
  induction p using inductionOn with
  | step p ih =>
    rw [segmentsOf_eq, segmentsOf_eq]
    apply flatMap_children_withoutComments h
    · exact fun c _ hbare => segmentsAt_of_comment hbare
    · intro c hc hkept
      simp [segmentsAt, ih c hc hkept]

lemma isBareComment_of_userTypeOf (h : isBareComment p = false)
    (hq : userTypeOf p.node p.above = some q) : isBareComment q = false := by
  induction p using inductionOn with
  | step p ih =>
    rw [userTypeOf_eq] at hq
    split at hq
    · exact Option.some.inj hq ▸ h
    · rw [userTypeUnder_eq] at hq
      obtain ⟨c, hc, hq⟩ := List.exists_of_findSome?_eq_some hq
      split at hq
      · rename_i htyped
        refine ih c hc ?_ hq
        simp only [typedNode, Bool.and_eq_true, Bool.not_eq_true'] at htyped
        simp [isBareComment, htyped.1.1.2]
      · simp at hq

lemma supertypeTexts_withoutComments (h : isBareComment p = false) :
    supertypeTexts src.withoutComments p.withoutComments = supertypeTexts src p := by
  simp only [supertypeTexts, delegationSpecifiers_withoutComments h, List.filterMap_map,
    List.filterMap_filterMap]
  apply List.filterMap_congr
  intro c hc
  have hkept := isBareComment_of_mem_delegationSpecifiers hc
  simp only [Function.comp_apply, userTypeOf_withoutComments hkept]
  cases hq : userTypeOf c.node c.above with
  | none => rfl
  | some q =>
    simp [segmentsOf_withoutComments (isBareComment_of_userTypeOf hkept hq)]

/-- A declaration at its place in another tree. -/
def Declaration.map (f : Place → Place) (d : Declaration) : Declaration :=
  { d with place := f d.place, nameNode := d.nameNode.map f }

lemma declarationAt_withoutComments (hplain : src.PlainComments) (hp : src.Has p)
    (h : isBareComment p = false) (header : Header) (outer : List String) :
    declarationAt src.withoutComments header outer p.withoutComments =
      (declarationAt src header outer p).map withoutComments := by
  simp [declarationAt, Declaration.map, declarationName?_withoutComments hplain hp h,
    supertypeTexts_withoutComments h, Function.comp_def]

lemma isDeclaration_without (loose : Place → Bool) (p : Place) :
    isDeclaration (p.without loose).node = isDeclaration p.node :=
  congrArg declarationKinds.contains (kind_without loose p)

lemma walkedNode_without (loose : Place → Bool) (p : Place) :
    walkedNode (p.without loose).node = walkedNode p.node :=
  congrArg (fun tag => walkedNode (.node tag [])) (tag_without loose p)

lemma declarationsUnder_withoutComments {header : Header} {outer : List String}
    (h : isBareComment p = false)
    (hchildren : ∀ c ∈ p.children, isBareComment c = false →
      declarationsOf src.withoutComments header outer c.withoutComments.node
          c.withoutComments.above =
        (declarationsOf src header outer c.node c.above).map (Declaration.map withoutComments)) :
    declarationsUnder src.withoutComments header outer p.withoutComments.node
        p.withoutComments.above p.withoutComments.node.children 0 =
      (declarationsUnder src header outer p.node p.above p.node.children 0).map
        (Declaration.map withoutComments) := by
  rw [declarationsUnder_eq, declarationsUnder_eq, List.map_flatMap]
  apply flatMap_children_withoutComments h
  · intro c hc hbare
    simp [walkedNode, (isBareComment_iff.mp hbare).2.1]
  · intro c hc hkept
    rw [walkedNode_without, hchildren c hc hkept]
    split <;> rfl

lemma declarationsOf_withoutComments (hplain : src.PlainComments) (header : Header)
    (outer : List String) (hp : src.Has p) (h : isBareComment p = false) :
    declarationsOf src.withoutComments header outer p.withoutComments.node
        p.withoutComments.above =
      (declarationsOf src header outer p.node p.above).map (Declaration.map withoutComments) := by
  induction p using inductionOn generalizing outer with
  | step p ih =>
    have hunder (names : List String) := declarationsUnder_withoutComments h fun c hc hkept =>
      ih c hc names (hp.child hc rfl) hkept
    have hat := declarationAt_withoutComments hplain hp h header outer
    rw [declarationsOf_eq, declarationsOf_eq src header outer p, isDeclaration_without, hat,
      hunder, hunder]
    split <;> rfl

/-- The declarations of a file without comments are the same, at their places in the smaller
tree. -/
theorem declarations_withoutComments (hplain : src.PlainComments) :
    declarations src.withoutComments =
      (declarations src).map (Declaration.map withoutComments) := by
  rw [declarations, read_withoutComments]
  exact declarationsUnder_withoutComments (isBareComment_root src) fun c hc hkept =>
    declarationsOf_withoutComments hplain _ [] (Reach.refl.child hc rfl) hkept

lemma keepsChains_map (f : Place → Place) : KeepsChains (Declaration.map f) :=
  ⟨fun _ => rfl, fun _ => rfl, fun _ _ => Iff.rfl⟩

/-- The supertypes of a declaration do not depend on where the declarations stand. -/
lemma resolvedSupertypes_map (f : Place → Place) (all : List Declaration) (d : Declaration) :
    resolvedSupertypes (all.map (Declaration.map f)) (d.map f) = resolvedSupertypes all d := by
  rw [resolvedSupertypes, (keepsChains_map f).lineage_map, List.flatMap_map]
  rfl

end Kotlin

end SpecLens
