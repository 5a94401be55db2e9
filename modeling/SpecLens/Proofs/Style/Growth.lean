import SpecLens.Proofs.Style.Wrapper
import SpecLens.Proofs.Tree.Growth

/-!
# Recognition beside one more declaration

A declaration is no part of a call or of a member access, and names and literals do not hold any.
So one more declaration in a tree changes nothing that the other nodes declare.
-/

namespace SpecLens

open Kotlin Place

namespace Kotlin

/-- The kinds of nodes whose children are the parts of an expression or the entries of a header. -/
def partedKinds : List String :=
  ["call_expression", "call_suffix", "value_arguments", "value_argument", "navigation_expression",
    "navigation_suffix", "import_list"]

/-- A node that is read by its text. -/
def isReadAsText (p : Place) : Bool :=
  p.node.tag.isName || isIdentifier p || isStringLiteral p ||
    ["package_header", "import_header", "import"].contains p.kind

end Kotlin

/-- What the grammar promises of a declaration within another one: it is no name and no part of an
expression or a header, and it stands in no name, no literal and no entry of a header. The type
reference of a supertype neither stands in it nor around it. -/
structure Source.Hosts (src : Source) (inner : Place) : Prop where
  declaration : isDeclaration inner.node = true
  unnamed : inner.node.tag.isName = false
  parent : ∀ q, inner.parent = some q → q.parent.isSome = true ∧ q.kind ∉ partedKinds
  around : ∀ q ∈ inner.ancestors, isReadAsText q = false
  supertype : ∀ p ∈ src.rootPlace.preorder, isDeclaration p.node = true → ¬Below inner p →
    ∀ s ∈ delegationSpecifiers p, ∀ t, userTypeOf s.node s.above = some t →
      ¬Below inner t ∧ ¬Below t inner

namespace Source.Grows

variable {src grown : Source} {added : Place} {lift : Place → Place} {p q c d t : Place}
  {rest : List Place}

lemma parent_ne_of_kind (h : src.Grows grown added lift) (hadded : grown.Hosts added)
    (hp : src.Has p) (hkind : p.kind ∈ partedKinds) : added.parent ≠ some (lift p) := by
  intro hparent
  refine (hadded.parent _ hparent).2 ?_
  rw [h.kind_eq hp]
  exact hkind

lemma kind_added_ne (hadded : grown.Hosts added) {kind : String}
    (hkind : kind ∉ declarationKinds) : (added.kind == kind) = false := by
  rw [beq_eq_false_iff_ne]
  rintro rfl
  exact hkind (List.contains_iff_mem.mp hadded.declaration)

/-- A tree keeps all its nodes if none is loose. -/
lemma spares_none (src : Source) : src.Spares fun _ => false := fun _ _ hloose => by cases hloose

lemma callTail_lift (h : src.Grows grown added lift) (hadded : grown.Hosts added)
    (hrest : ∀ c ∈ rest, src.Has c) : callTail (rest.map lift) = (callTail rest).map lift := by
  rw [callTail, List.flatMap_map, callTail, List.map_flatMap]
  apply List.flatMap_congr
  intro c hc
  rw [h.kind_eq (hrest c hc)]
  split
  · rename_i hkind
    refine h.namedChildren_eq (hrest c hc) (h.parent_ne_of_kind hadded (hrest c hc) ?_)
    rw [beq_iff_eq.mp hkind]
    decide
  · rfl

lemma filter_map_kind (h : src.Grows grown added lift) (hrest : ∀ c ∈ rest, src.Has c)
    (keep : String → Bool) :
    (rest.map lift).filter (fun c => keep c.kind) =
      (rest.filter fun c => keep c.kind).map lift := by
  rw [List.filter_map]
  apply congrArg
  apply List.filter_congr
  intro c hc
  rw [Function.comp_apply, h.kind_eq (hrest c hc)]

lemma lambdaIn_lift (h : src.Grows grown added lift) (hadded : grown.Hosts added)
    (hp : src.Has p) : lambdaIn (lift p) = (lambdaIn p).map lift := by
  unfold lambdaIn
  rw [h.kind_eq hp]
  split
  · rw [← List.head?_filter, ← List.head?_filter, ← List.head?_map]
    apply congrArg
    refine h.filter_namedChildren hp (kind_added_ne hadded (by decide)) fun c hc => ?_
    rw [h.kind_eq (hp.child hc rfl)]
  · rfl

lemma lastLambda_lift (h : src.Grows grown added lift) (hadded : grown.Hosts added)
    (hrest : ∀ c ∈ rest, src.Has c) : lastLambda (rest.map lift) = (lastLambda rest).map lift := by
  rw [lastLambda, h.filter_map_kind hrest fun kind =>
    kind == "annotated_lambda" || kind == "lambda_literal", List.getLast?_map, lastLambda]
  cases hlast : (rest.filter fun c =>
      c.kind == "annotated_lambda" || c.kind == "lambda_literal").getLast? with
  | none => rfl
  | some c =>
    have hmem := (List.mem_filter.mp (List.mem_of_getLast? hlast)).1
    exact h.lambdaIn_lift hadded (hrest c hmem)

lemma directCall?_lift (h : src.Grows grown added lift) (hadded : grown.Hosts added)
    (hp : src.Has p) : directCall? (lift p) = (directCall? p).map (Call.map lift) := by
  have hisCall : isCall (lift p) = isCall p := by rw [isCall, h.kind_eq hp, isCall]
  unfold directCall?
  rw [hisCall]
  cases hcall : isCall p with
  | false => rfl
  | true =>
    have hkind : p.kind ∈ partedKinds := by
      rw [beq_iff_eq.mp hcall]
      decide
    -- No child of a call is new, so it has the same parts.
    rw [h.namedChildren_eq hp (h.parent_ne_of_kind hadded hp hkind)]
    cases hchildren : p.namedChildren with
    | nil => rfl
    | cons callee rest =>
      have hhas : ∀ c ∈ callee :: rest, src.Has c := fun c hc =>
        hp.child (mem_children_of_mem_namedChildren (hchildren ▸ hc)) rfl
      obtain ⟨hcallee, hrest⟩ := List.forall_mem_cons.mp hhas
      have htail : ∀ c ∈ callTail rest, src.Has c := fun c hc =>
        ((spares_none src).keeps_of_mem_callTail hp hcall (by simp [hchildren]) hc).1
      have harguments := h.filter_map_kind htail (· == "value_arguments")
      simp only [List.map_cons, h.kind_eq hcallee, h.callTail_lift hadded hrest, lastArguments,
        harguments, List.getLast?_map, h.lastLambda_lift hadded htail]
      split
      · rfl
      · split <;> rfl

lemma navigationTokens_lift (h : src.Grows grown added lift) (hadded : grown.Hosts added)
    (hp : src.Has p) (hkind : p.kind = "navigation_expression") :
    navigationTokens (lift p) = (navigationTokens p).map lift := by
  have hparted : p.kind ∈ partedKinds := by
    rw [hkind]
    decide
  rw [navigationTokens, h.children_eq hp (h.parent_ne_of_kind hadded hp hparted), List.flatMap_map,
    navigationTokens, List.map_flatMap]
  apply List.flatMap_congr
  intro c hc
  have hchild := hp.child hc rfl
  rw [h.kind_eq hchild]
  split
  · rename_i hsuffix
    refine h.children_eq hchild (h.parent_ne_of_kind hadded hchild ?_)
    rw [beq_iff_eq.mp hsuffix]
    decide
  · rfl

lemma navigation?_lift (h : src.Grows grown added lift) (hadded : grown.Hosts added)
    (hp : src.Has p) : navigation? (lift p) = (navigation? p).map (Navigation.map lift) := by
  unfold navigation?
  rw [h.kind_eq hp]
  by_cases hkind : p.kind = "navigation_expression"
  swap
  · simp [hkind]
  have htokens : ∀ t ∈ navigationTokens p, src.Has t := fun t ht =>
    Source.Spares.has_of_mem_navigationTokens hp ht
  have hnamed : (navigationTokens (lift p)).filter (fun t => t.named && !t.node.isComment) =
      ((navigationTokens p).filter fun t => t.named && !t.node.isComment).map lift := by
    rw [h.navigationTokens_lift hadded hp hkind, List.filter_map]
    apply congrArg
    apply List.filter_congr
    intro t ht
    rw [Function.comp_apply, h.named_eq (htokens t ht), h.isComment_eq (htokens t ht)]
  have hdot : (navigationTokens (lift p)).any (fun t => !t.named && t.kind == ".") =
      (navigationTokens p).any fun t => !t.named && t.kind == "." := by
    rw [h.navigationTokens_lift hadded hp hkind, List.any_map, Bool.eq_iff_iff, List.any_eq_true,
      List.any_eq_true]
    refine exists_congr fun t => and_congr_right fun ht => ?_
    rw [Function.comp_apply, h.named_eq (htokens t ht), h.kind_eq (htokens t ht)]
  have hplain : (p.kind != "navigation_expression") = false := by simp [hkind]
  simp only [hplain, Bool.false_eq_true, if_false, hnamed, hdot, List.head?_map, List.getLast?_map]
  cases hhead : ((navigationTokens p).filter fun t => t.named && !t.node.isComment).head? with
  | none => rfl
  | some receiver =>
    cases hlast : ((navigationTokens p).filter fun t =>
        t.named && !t.node.isComment).getLast? with
    | none => rfl
    | some member =>
      have hreceiver := htokens receiver (List.mem_filter.mp (List.mem_of_mem_head? hhead)).1
      have hmember := htokens member (List.mem_filter.mp (List.mem_of_getLast? hlast)).1
      have hidentifier : isIdentifier (lift member) = isIdentifier member := by
        rw [isIdentifier, h.kind_eq hmember, isIdentifier]
      simp only [Option.map_some, h.same hreceiver hmember, hidentifier]
      split
      · rfl
      · split <;> rfl

lemma isReadAsText_lift (h : src.Grows grown added lift) (hp : src.Has p) :
    isReadAsText (lift p) = isReadAsText p := by
  simp only [isReadAsText, isIdentifier, isStringLiteral, h.kind_eq hp, h.named_eq hp,
    h.isName p (mem_preorder.mpr hp)]

lemma not_around (h : src.Grows grown added lift) (hadded : grown.Hosts added) (hp : src.Has p)
    (htext : isReadAsText p = true) : ¬Below (lift p) added := by
  intro hbelow
  rcases List.mem_cons.mp hbelow.mem_selfAndAncestors with heq | habove
  · exact h.not_below hp (heq ▸ .refl)
  · have hnone := hadded.around _ habove
    rw [h.isReadAsText_lift hp, htext] at hnone
    cases hnone

lemma textOf_lift (h : src.Grows grown added lift) (hadded : grown.Hosts added) (hp : src.Has p)
    (htext : isReadAsText p = true) : grown.textOf (lift p) = src.textOf p :=
  h.text p (mem_preorder.mpr hp) (h.not_around hadded hp htext)

lemma identifierName?_lift (h : src.Grows grown added lift) (hadded : grown.Hosts added)
    (hp : src.Has p) : identifierName? grown (lift p) = identifierName? src p := by
  have hsame : isIdentifier (lift p) = isIdentifier p := by
    rw [isIdentifier, h.kind_eq hp, isIdentifier]
  rw [identifierName?, hsame, identifierName?]
  split
  · rename_i hidentifier
    rw [h.textOf_lift hadded hp (by simp [isReadAsText, hidentifier])]
  · rfl

lemma parent_ne_of_not_below (h : src.Grows grown added lift) (hout : ¬Below (lift p) added) :
    added.parent ≠ some (lift p) := fun hparent =>
  hout (below_of_mem_children (mem_children_of_parent h.has_added hparent).2)

lemma not_below_child (h : src.Grows grown added lift) (hp : src.Has p) (hc : c ∈ p.children)
    (hout : ¬Below (lift p) added) : ¬Below (lift c) added := fun hbelow =>
  hout ((below_of_mem_children (h.lift_mem_children hp hc).1).trans hbelow)

lemma hasEntryBelow_lift (h : src.Grows grown added lift) (hp : src.Has p)
    (hout : ¬Below (lift p) added) : hasEntryBelow (lift p).node = hasEntryBelow p.node := by
  induction p using inductionOn with
  | step p ih =>
    rw [Source.Spares.hasEntryBelow_eq, Source.Spares.hasEntryBelow_eq,
      h.children_eq hp (h.parent_ne_of_not_below hout), List.any_map, Bool.eq_iff_iff,
      List.any_eq_true, List.any_eq_true]
    refine exists_congr fun c => and_congr_right fun hc => ?_
    have hchild := hp.child hc rfl
    rw [Function.comp_apply, Source.Spares.holdsEntry, h.kind_eq hchild, h.named_eq hchild,
      ih c hc hchild (h.not_below_child hp hc hout), Source.Spares.holdsEntry]

lemma literal?_lift (h : src.Grows grown added lift) (hadded : grown.Hosts added)
    (hp : src.Has p) : literal? grown (lift p) = literal? src p := by
  have hsame : isStringLiteral (lift p) = isStringLiteral p := by
    rw [isStringLiteral, h.kind_eq hp, h.named_eq hp, isStringLiteral]
  rw [literal?, hsame, literal?]
  split
  · rename_i hliteral
    have htext : isReadAsText p = true := by simp [isReadAsText, hliteral]
    rw [h.textOf_lift hadded hp htext, h.hasEntryBelow_lift hp (h.not_around hadded hp htext)]
  · rfl

/-- Beside one more declaration a tree holds the same expressions. -/
theorem carries (h : src.Grows grown added lift) (hadded : grown.Hosts added) :
    src.Carries grown src.Has lift where
  kind := h.kind_eq
  named := h.named_eq
  name := h.identifierName?_lift hadded
  literal := h.literal?_lift hadded
  directCall := h.directCall?_lift hadded
  within hp hc := ((spares_none src).within_of_directCall? hp hc).mono fun _ hkept => hkept.1
  argument hp hkind := by
    refine ⟨h.namedChildren_eq hp (h.parent_ne_of_kind hadded hp ?_), fun c hc =>
      hp.child (mem_children_of_mem_namedChildren hc) rfl⟩
    rcases hkind with hkind | hkind <;> simp [hkind, partedKinds]
  navigation := h.navigation?_lift hadded
  ends hp hn := ((spares_none src).keeps_of_navigation? hp hn).imp And.left And.left

variable {s : Style}

lemma parents_lift (h : src.Grows grown added lift) (hadded : grown.Hosts added)
    (hp : src.Has p) : s.parents grown (lift p) = s.parents src p := by
  rw [Style.parents, h.ancestors hp, List.filterMap_map, Style.parents]
  apply congrArg
  apply List.filterMap_congr
  intro q hq
  have hhas := (below_of_mem_selfAndAncestors hp (List.mem_cons_of_mem _ hq)).1
  exact (h.carries hadded).container?_eq hhas

end Source.Grows

/-- A test without its position. -/
def Test.unplaced (t : Test) : Test := { t with anchor := default }

/-- A node declares the same test beside one more declaration, at another position. -/
theorem Source.Grows.test?_lift {src grown : Source} {added p : Place} {lift : Place → Place}
    {s : Style} (h : src.Grows grown added lift) (hadded : grown.Hosts added) (hp : src.Has p) :
    (s.test? grown (lift p)).map Test.unplaced = (s.test? src p).map Test.unplaced := by
  rw [Style.test?, (h.carries hadded).declared?_eq hp, Style.test?, Option.map_map, Option.map_map]
  apply Option.map_congr
  intro d _
  simp only [Function.comp_apply, Style.build, h.parents_lift hadded hp, Test.unplaced]

end SpecLens
