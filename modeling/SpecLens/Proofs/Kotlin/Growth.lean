import SpecLens.Proofs.Kotlin.Comment
import SpecLens.Proofs.Style.Growth

/-!
# Declarations beside one more

One more declaration in a file adds itself and those within it. The others keep their names and
supertypes, since the header of the file stays as it is.
-/

namespace SpecLens

open Kotlin Place

namespace Source.Grows

variable {src grown : Source} {added : Place} {lift : Place → Place} {p q c s t : Place}
  {header : Header} {outer : List String}

lemma walkedNode_lift (h : src.Grows grown added lift) (hp : src.Has p) :
    walkedNode (lift p).node = walkedNode p.node := by
  have hnamed : (lift p).node.named = p.node.named := h.named_eq hp
  rw [walkedNode, hnamed, h.isComment_eq hp, walkedNode]

lemma isDeclaration_lift (h : src.Grows grown added lift) (hp : src.Has p) :
    isDeclaration (lift p).node = isDeclaration p.node :=
  congrArg declarationKinds.contains (h.kind_eq hp)

lemma entriesUnder_lift (h : src.Grows grown added lift) (hadded : grown.Hosts added)
    (hp : src.Has p) (hother : added.parent ≠ some (lift p)) :
    Header.entriesUnder (lift p).node (lift p).above (lift p).node.children 0 =
      (Header.entriesUnder p.node p.above p.node.children 0).map lift := by
  induction p using inductionOn with
  | step p ih =>
    rw [entriesUnder_eq, entriesUnder_eq, h.children_eq hp hother, List.flatMap_map,
      List.map_flatMap]
    apply List.flatMap_congr
    intro c hc
    have hchild := hp.child hc rfl
    rw [h.named_eq hchild, h.isComment_eq hchild, entriesOf_eq, entriesOf_eq c, h.kind_eq hchild]
    split
    · split
      · rename_i hlist
        refine ih c hc hchild (h.parent_ne_of_kind hadded hchild ?_)
        rw [beq_iff_eq.mp hlist]
        decide
      · rfl
    · rfl

lemma add_lift (h : src.Grows grown added lift) (hadded : grown.Hosts added) (hp : src.Has p)
    (header : Header) : Header.add grown header (lift p) = Header.add src header p := by
  have htext (hkind : p.kind ∈ ["package_header", "import_header", "import"]) :
      grown.textOf (lift p) = src.textOf p :=
    h.textOf_lift hadded hp (by simp [isReadAsText, hkind])
  unfold Header.add
  rw [h.kind_eq hp]
  split
  · rename_i hkind
    rw [htext (by simp [beq_iff_eq.mp hkind])]
  · split
    · rename_i hkind
      rw [htext]
      rcases Bool.or_eq_true_iff.mp hkind with hkind | hkind <;> simp [beq_iff_eq.mp hkind]
    · rfl

lemma parent_ne_root (h : src.Grows grown added lift) (hadded : grown.Hosts added) :
    added.parent ≠ some (lift src.rootPlace) := by
  intro hparent
  have hsome := (hadded.parent _ hparent).1
  rw [h.parent_root] at hsome
  cases hsome

lemma read_lift (h : src.Grows grown added lift) (hadded : grown.Hosts added) :
    Header.read grown = Header.read src := by
  have hentries := h.entriesUnder_lift hadded .refl (h.parent_ne_root hadded)
  rw [h.root] at hentries
  have hfold (entries : List Place) (hall : ∀ p ∈ entries, src.Has p) (header : Header) :
      (entries.map lift).foldl (Header.add grown) header =
        entries.foldl (Header.add src) header := by
    induction entries generalizing header with
    | nil => rfl
    | cons p entries ih =>
      obtain ⟨hp, hall⟩ := List.forall_mem_cons.mp hall
      rw [List.map_cons, List.foldl_cons, List.foldl_cons, h.add_lift hadded hp, ih hall]
  rw [Header.read]
  rw [show Header.entriesUnder grown.root [] grown.root.children 0 = _ from hentries]
  exact hfold _ (fun p hp => has_of_mem_entriesUnder .refl hp) _

lemma find?_lift {places places' : List Place} {keep : Place → Bool}
    (hplaces : places'.filter keep = (places.filter keep).map lift) :
    places'.find? keep = (places.find? keep).map lift := by
  rw [← List.head?_filter, hplaces, List.head?_map, List.head?_filter]

lemma declarationName?_lift (h : src.Grows grown added lift) (hadded : grown.Hosts added)
    (hp : src.Has p) : declarationName? (lift p) = (declarationName? p).map lift := by
  have hname : (lift p).nameChild = p.nameChild.map lift :=
    find?_lift (h.filter_children hp hadded.unnamed fun c hc =>
      h.isName c (mem_preorder.mpr (hp.child hc rfl)))
  have hnone : isIdentifier added = false := by
    have hall : ∀ kind ∈ declarationKinds, kind ∉ identifierKinds := by decide
    rw [isIdentifier, ← Bool.not_eq_true, List.contains_iff_mem]
    exact hall _ (List.contains_iff_mem.mp hadded.declaration)
  have hidentifier : (lift p).namedChildren.find? isIdentifier =
      (p.namedChildren.find? isIdentifier).map lift :=
    find?_lift (h.filter_namedChildren hp hnone fun c hc => by
      rw [isIdentifier, h.kind_eq (hp.child hc rfl), isIdentifier])
  rw [declarationName?, hname, hidentifier, declarationName?, Option.map_or]

lemma isReadAsText_of_declarationName? (hp : src.Has p) (hc : declarationName? p = some c) :
    src.Has c ∧ isReadAsText c = true := by
  rcases Option.or_eq_some_iff.mp hc with hname | ⟨-, hidentifier⟩
  · exact ⟨hp.child (List.mem_of_find?_eq_some hname) rfl, by
      simp [isReadAsText, List.find?_some hname]⟩
  · have hmem := List.mem_of_find?_eq_some hidentifier
    exact ⟨hp.child (mem_children_of_mem_namedChildren hmem) rfl, by
      simp [isReadAsText, List.find?_some hidentifier]⟩

lemma delegationSpecifiers_lift (h : src.Grows grown added lift) (hadded : grown.Hosts added)
    (hp : src.Has p) : delegationSpecifiers (lift p) = (delegationSpecifiers p).map lift := by
  have hplain : ∀ kind ∉ declarationKinds, (added.kind == kind) = false := fun _ =>
    kind_added_ne hadded
  rw [delegationSpecifiers_eq, delegationSpecifiers_eq, List.map_flatMap]
  refine h.flatMap_children hp (fun _ => ?_) fun c hc => ?_
  · simp [specifiersAt, hplain "delegation_specifier" (by decide),
      hplain "delegation_specifiers" (by decide)]
  · have hchild := hp.child hc rfl
    rw [h.walkedNode_lift hchild, specifiersAt, h.kind_eq hchild, specifiersAt]
    split
    · split
      · rfl
      · split
        · exact h.filter_namedChildren hchild (hplain _ (by decide)) fun d hd => by
            rw [h.kind_eq (hchild.child hd rfl)]
        · rfl
    · rfl

/-- The first thing found among some places is found among more of them, too, if it is none that
only those hold. -/
lemma findSome?_lift {places places' : List Place} {keep : Place → Bool}
    {find find' : Place → Option Place} {good : Place → Prop}
    (hplaces : places'.filter keep = places.map lift)
    (hdrop : ∀ c ∈ places', keep c = false → ∀ t, find' c = some t → ¬good t)
    (hkeep : ∀ c ∈ places, (∀ t, find' (lift c) = some t → good t) →
      find' (lift c) = (find c).map lift)
    (hgood : ∀ t, places'.findSome? find' = some t → good t) :
    places'.findSome? find' = (places.findSome? find).map lift := by
  induction places' generalizing places with
  | nil =>
    rw [List.filter_nil, eq_comm, List.map_eq_nil_iff] at hplaces
    rw [hplaces]
    rfl
  | cons b places' ih =>
    have hrest (hnone : find' b = none) : ∀ t, places'.findSome? find' = some t → good t :=
      fun t ht => hgood t (by rw [List.findSome?_cons, hnone, ht])
    have hdrop' := fun c hc => hdrop c (List.mem_cons_of_mem b hc)
    rw [List.filter_cons] at hplaces
    split at hplaces
    · obtain ⟨c, places, rfl, rfl, htail⟩ := List.map_eq_cons_iff.mp hplaces.symm
      have hkeep' := fun d hd => hkeep d (List.mem_cons_of_mem c hd)
      have hc := hkeep c List.mem_cons_self fun t ht => hgood t (by
        rw [List.findSome?_cons, ht])
      rw [List.findSome?_cons, List.findSome?_cons, hc]
      cases hfind : find c with
      | some t => rfl
      | none => exact ih htail.symm hdrop' hkeep' (hrest (by rw [hc, hfind]; rfl))
    · rename_i hout
      have hnone : find' b = none := by
        rw [Option.eq_none_iff_forall_ne_some]
        intro t ht
        refine hdrop b List.mem_cons_self (by simpa using hout) t ht (hgood t ?_)
        rw [List.findSome?_cons, ht]
      rw [List.findSome?_cons, hnone]
      exact ih hplaces hdrop' hkeep (hrest hnone)

lemma typedNode_lift (h : src.Grows grown added lift) (hp : src.Has p) :
    typedNode (lift p).node = typedNode p.node := by
  have hnamed : (lift p).node.named = p.node.named := h.named_eq hp
  have hkind : (lift p).node.kind = p.node.kind := h.kind_eq hp
  rw [typedNode, hnamed, h.isComment_eq hp, hkind, typedNode]

lemma userTypeOf_lift (h : src.Grows grown added lift) (hp : src.Has p)
    (hout : ∀ t, userTypeOf (lift p).node (lift p).above = some t → ¬Below added t) :
    userTypeOf (lift p).node (lift p).above = (userTypeOf p.node p.above).map lift := by
  induction p using inductionOn with
  | step p ih =>
    rw [userTypeOf_eq] at hout
    rw [userTypeOf_eq, userTypeOf_eq p, h.kind_eq hp] at *
    split
    · rfl
    rename_i hkind
    rw [if_neg hkind, userTypeUnder_eq] at hout
    rw [userTypeUnder_eq, userTypeUnder_eq]
    refine findSome?_lift (h.children p (mem_preorder.mpr hp)) (fun c hc hsame t ht => ?_)
      (fun c hc hgood => ?_) hout
    · rw [Bool.not_eq_false', h.same_added_iff hp hc] at hsame
      split at ht
      · exact not_not_intro (hsame ▸ below_of_userTypeOf ht)
      · cases ht
    · have hchild := hp.child hc rfl
      rw [h.typedNode_lift hchild] at hgood ⊢
      split
      · rename_i htyped
        rw [if_pos htyped] at hgood
        exact ih c hc hchild hgood
      · rfl

lemma segmentsOf_lift (h : src.Grows grown added lift) (hp : src.Has p)
    (hout : ¬Below (lift p) added) : segmentsOf grown (lift p).node = segmentsOf src p.node := by
  induction p using inductionOn with
  | step p ih =>
    rw [segmentsOf_eq, segmentsOf_eq, h.children_eq hp (h.parent_ne_of_not_below hout),
      List.flatMap_map]
    apply List.flatMap_congr
    intro c hc
    have hchild := hp.child hc rfl
    have houtside := h.not_below_child hp hc hout
    rw [segmentsAt, segmentsAt, h.kind_eq hchild, h.named_eq hchild, ih c hc hchild houtside,
      h.text c (mem_preorder.mpr hchild) houtside, isIdentifier, h.kind_eq hchild, isIdentifier]

lemma supertypeTexts_lift (h : src.Grows grown added lift) (hadded : grown.Hosts added)
    (hp : src.Has p) (hdecl : isDeclaration p.node = true) :
    supertypeTexts grown (lift p) = supertypeTexts src p := by
  simp only [supertypeTexts, h.delegationSpecifiers_lift hadded hp, List.filterMap_map,
    List.filterMap_filterMap]
  apply List.filterMap_congr
  intro s hs
  have hspecifier := has_of_mem_delegationSpecifiers hp hs
  have hmem : lift s ∈ delegationSpecifiers (lift p) := by
    rw [h.delegationSpecifiers_lift hadded hp]
    exact List.mem_map_of_mem hs
  have hout := hadded.supertype (lift p) (mem_preorder.mpr (h.has hp))
    (by rw [h.isDeclaration_lift hp, hdecl]) (h.not_below hp) (lift s) hmem
  -- The reference is none of the new declaration, and its text does not hold that one.
  have hsame := h.userTypeOf_lift hspecifier fun t ht => (hout t ht).1
  rw [Function.comp_apply, hsame]
  cases ht : userTypeOf s.node s.above with
  | none => rfl
  | some t =>
    rw [ht] at hsame
    simp only [Option.map_some, Option.bind_some]
    rw [h.segmentsOf_lift (hspecifier.trans (below_of_userTypeOf ht)) (hout _ hsame).2]

lemma declarationAt_lift (h : src.Grows grown added lift) (hadded : grown.Hosts added)
    (hp : src.Has p) (hdecl : isDeclaration p.node = true) (header : Header)
    (outer : List String) : declarationAt grown header outer (lift p) =
      (declarationAt src header outer p).map lift := by
  have hname : (((declarationName? p).map lift).map fun n => unquoted (grown.textOf n)) =
      (declarationName? p).map fun n => unquoted (src.textOf n) := by
    rw [Option.map_map]
    apply Option.map_congr
    intro n hn
    obtain ⟨hhas, htext⟩ := isReadAsText_of_declarationName? hp hn
    rw [Function.comp_apply, h.textOf_lift hadded hhas htext]
  simp only [declarationAt, Declaration.map, h.declarationName?_lift hadded hp, hname,
    h.supertypeTexts_lift hadded hp hdecl]

open Classical in
lemma filter_declarationsOf_added (added : Place) (grown : Source) (header : Header)
    (outer : List String) : (declarationsOf grown header outer added.node added.above).filter
      (fun d => ¬Below added d.place) = [] := by
  rw [List.filter_eq_nil_iff]
  intro d hd
  obtain ⟨q, outer', hbelow, -, rfl⟩ := mem_declarationsOf hd
  have hplace : (declarationAt grown header outer' q).place = q := rfl
  simpa [hplace] using hbelow

open Classical in
lemma filter_declarationsUnder_lift (h : src.Grows grown added lift) (hp : src.Has p)
    (header : Header) (outer : List String) (hchildren : ∀ c ∈ p.children,
      (declarationsOf grown header outer (lift c).node (lift c).above).filter
          (fun d => ¬Below added d.place) =
        (declarationsOf src header outer c.node c.above).map (Declaration.map lift)) :
    (declarationsUnder grown header outer (lift p).node (lift p).above (lift p).node.children
        0).filter (fun d => ¬Below added d.place) =
      (declarationsUnder src header outer p.node p.above p.node.children 0).map
        (Declaration.map lift) := by
  rw [declarationsUnder_eq, declarationsUnder_eq, List.filter_flatMap, List.map_flatMap]
  refine h.flatMap_children hp (fun _ => ?_) fun c hc => ?_
  · split
    · exact filter_declarationsOf_added added grown header outer
    · rfl
  · rw [h.walkedNode_lift (hp.child hc rfl)]
    split
    · exact hchildren c hc
    · rfl

open Classical in
lemma filter_declarationsOf_lift (h : src.Grows grown added lift) (hadded : grown.Hosts added)
    (hp : src.Has p) (header : Header) (outer : List String) :
    (declarationsOf grown header outer (lift p).node (lift p).above).filter
        (fun d => ¬Below added d.place) =
      (declarationsOf src header outer p.node p.above).map (Declaration.map lift) := by
  induction p using inductionOn generalizing outer with
  | step p ih =>
    have hunder (names : List String) := h.filter_declarationsUnder_lift hp header names
      fun c hc => ih c hc (hp.child hc rfl) names
    rw [declarationsOf_eq, declarationsOf_eq src header outer p, h.isDeclaration_lift hp]
    split
    · rename_i hdecl
      have hout : ¬Below added (declarationAt grown header outer (lift p)).place := h.not_below hp
      have hat := h.declarationAt_lift hadded hp hdecl header outer
      rw [List.filter_cons, if_pos (by simpa using hout), hunder, hat]
      rfl
    · exact hunder outer

open Classical in
/-- Without the new declaration and those within it, the declarations of the longer file are those
of the shorter one. -/
theorem filter_declarations (h : src.Grows grown added lift) (hadded : grown.Hosts added) :
    (declarations grown).filter (fun d => ¬Below added d.place) =
      (declarations src).map (Declaration.map lift) := by
  rw [declarations, h.read_lift hadded]
  have hunder := h.filter_declarationsUnder_lift .refl (.read src) [] fun c hc =>
    h.filter_declarationsOf_lift hadded (Reach.refl.child hc rfl) (.read src) []
  rw [h.root] at hunder
  exact hunder

end Source.Grows

end SpecLens
