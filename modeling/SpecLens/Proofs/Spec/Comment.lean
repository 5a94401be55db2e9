import SpecLens.Proofs.Spec.CommentAnchor
import SpecLens.Proofs.Spec.Enclosing
import SpecLens.Proofs.Spec.Marker
import SpecLens.Proofs.Style.Wrapper

/-!
# Specs, markers and lookups without comments

Comments change nothing that is found in a file. What the grammar promises of comments is enough for
the declarations and the specs. Markers and lookups go by ranges and by tokens, so they also need
the tree to be well nested.
-/

namespace SpecLens

open Kotlin Place Text

namespace Source.PlainComments

variable {src : Source} {p q c : Place} {s : Style}

lemma spares (h : src.PlainComments) : src.Spares isBareComment := fun p hp hbare => by
  rw [isSpare, hbare, h.noEntry p hp hbare]
  rfl

lemma test?_withoutComments (h : src.PlainComments) (hp : src.Has p)
    (hkept : isBareComment p = false) :
    s.test? src.withoutComments p.withoutComments = s.test? src p :=
  h.spares.test?_without ⟨hp, hkept⟩

lemma bodyNode_without (loose : Place → Bool) (p : Place) :
    bodyNode (p.without loose).node = bodyNode p.node :=
  congrArg (fun tag => bodyNode (.node tag [])) (tag_without loose p)

lemma testsUnder_withoutComments (h : src.PlainComments) (hp : src.Has p)
    (hkept : isBareComment p = false) :
    testsUnder s src.withoutComments p.withoutComments.node p.withoutComments.above
        p.withoutComments.node.children 0 =
      testsUnder s src p.node p.above p.node.children 0 := by
  induction p using inductionOn with
  | step p ih =>
    rw [testsUnder_eq, testsUnder_eq]
    apply flatMap_children_withoutComments hkept
    · intro c hc hbare
      simp [bodyNode, (isBareComment_iff.mp hbare).2.1]
    · intro c hc hkept
      have hchild := hp.child hc rfl
      rw [bodyNode_without, testsAt_eq, testsAt_eq, h.test?_withoutComments hchild hkept,
        ih c hc hchild hkept]

end Source.PlainComments

namespace Discovery

variable {src : Source} {decl : Declaration} {s : Style}

lemma isBareComment_of_isDeclaration {p : Place} (hp : isDeclaration p.node = true) :
    isBareComment p = false := by
  simp [isBareComment, isComment_of_isDeclaration hp]

lemma isBareComment_of_declaration (hdecl : decl ∈ declarations src) :
    isBareComment decl.place = false :=
  isBareComment_of_isDeclaration (mem_declarations hdecl).2.1

lemma anchorPlace_map (f : Place → Place) (decl : Declaration) :
    anchorPlace (decl.map f) = f (anchorPlace decl) := by
  rw [anchorPlace, anchorPlace, Declaration.map]
  cases decl.nameNode <;> rfl

lemma specOf_withoutComments (h : src.PlainComments) (hdecl : decl ∈ declarations src) :
    specOf src.withoutComments (decl.map withoutComments) s = specOf src decl s := by
  have htests : testsUnder s src.withoutComments decl.place.withoutComments.node
      decl.place.withoutComments.above decl.place.withoutComments.node.children 0 = _ :=
    h.testsUnder_withoutComments (mem_declarations hdecl).1 (isBareComment_of_declaration hdecl)
  simp only [specOf, anchorPlace_map, Source.anchorOf_without]
  exact congrArg (Spec.mk _ _ _ _ _) htests

lemma styleFor?_map (d : Discovery) (f : Place → Place) (all : List Declaration)
    (decl : Declaration) :
    d.styleFor? (all.map (Declaration.map f)) (decl.map f) = d.styleFor? all decl := by
  rw [styleFor?, resolvedSupertypes_map, styleFor?]

lemma specs_withoutComments (d : Discovery) (h : src.PlainComments) :
    d.specs src.withoutComments = d.specs src := by
  simp only [specs, declarations_withoutComments h, List.filterMap_map]
  apply List.filterMap_congr
  intro decl hdecl
  simp only [Function.comp_apply, styleFor?_map]
  cases d.styleFor? (declarations src) decl with
  | none => rfl
  | some s => rw [Option.map_some, Option.map_some, specOf_withoutComments h hdecl]

end Discovery

/-! ### Markers -/

namespace Source.PlainComments

variable {src : Source} {p : Place} {s : Style}

lemma isComment_anchorPlace (h : src.PlainComments) (hnested : src.WellNested)
    {decl : Declaration} (hdecl : decl ∈ declarations src) :
    (Discovery.anchorPlace decl).node.isComment = false := by
  obtain ⟨hhas, hkind, hname⟩ := mem_declarations hdecl
  rw [Discovery.anchorPlace, hname]
  cases hn : declarationName? decl.place with
  | none => exact isComment_of_isDeclaration hkind
  | some n =>
    rw [Option.getD_some]
    rcases Option.or_eq_some_iff.mp hn with hchild | ⟨-, hchild⟩
    · have hmem := List.mem_of_find?_eq_some hchild
      have hn := hhas.child hmem rfl
      rw [← Bool.not_eq_true]
      intro hcomment
      have hnone := hnested.tokens n (mem_preorder.mpr hn) (.inr hcomment)
      have hbare : isBareComment n = true :=
        isBareComment_iff.mpr ⟨by rw [parent_of_mem_children hmem]; rfl, hcomment, hnone⟩
      have hname := List.find?_some hchild
      rw [h.unnamed n (mem_preorder.mpr hn) hbare] at hname
      cases hname
    · have hproper := (List.mem_filter.mp (List.mem_of_find?_eq_some hchild)).2
      simp only [Bool.and_eq_true, Bool.not_eq_true'] at hproper
      exact hproper.2

lemma declarationOf?_withoutComments (h : src.PlainComments) (hnested : src.WellNested)
    {decl : Declaration} (hdecl : decl ∈ declarations src) :
    Marker.declarationOf? src.withoutComments (Discovery.specOf src decl s) =
      (Marker.declarationOf? src (Discovery.specOf src decl s)).map Place.withoutComments := by
  have hkind : containsText "comment".toList (Discovery.anchorPlace decl).kind.toList = false :=
    h.isComment_anchorPlace hnested hdecl
  have hanchor : (Discovery.specOf src decl s).anchor =
    src.anchorOf (Discovery.anchorPlace decl) := rfl
  rw [Marker.declarationOf?, Marker.declarationOf?, hanchor, anchorOf]
  dsimp only
  rw [h.resolve_withoutComments hnested hkind, Option.bind_map, Option.map_bind]
  apply Option.bind_congr
  intro p hp
  obtain ⟨hhas, hsame, -⟩ := Source.has_of_resolve_eq_some hp
  have hkept : isBareComment p = false := by
    have hcomment : p.node.isComment = false := by
      rw [Node.isComment, show p.node.kind = _ from hsame]
      exact hkind
    simp [isBareComment, hcomment]
  rw [Function.comp_apply, Function.comp_apply, selfAndAncestors_withoutComments hhas hkept,
    List.find?_map]
  simp only [Function.comp_def, isDeclaration_without]

lemma testAtToken?_eq_none (hbrace : isToken "\x7b" p = false) (hdot : isToken "." p = false) :
    s.testAtToken? src p = none := by
  simp [Style.testAtToken?, callOfBrace?_eq, expressionOfDot?_eq, hbrace, hdot]

lemma testAtToken?_of_named (hnamed : p.named = true) : s.testAtToken? src p = none :=
  testAtToken?_eq_none (by simp [isToken, hnamed]) (by simp [isToken, hnamed])

lemma testAtToken?_of_comment (hcomment : p.node.isComment = true) :
    s.testAtToken? src p = none := by
  have hother (text : String) (htext : containsText "comment".toList text.toList = false) :
      isToken text p = false := by
    have hne : p.kind ≠ text := by
      rintro rfl
      have hcomment : containsText "comment".toList p.kind.toList = true := hcomment
      rw [htext] at hcomment
      cases hcomment
    simp [isToken, hne]
  exact testAtToken?_eq_none (hother _ (by decide)) (hother _ (by decide))

lemma tokens_of_childless (hnone : p.node.children = []) : Marker.tokens p = [p] := by
  rw [Marker.tokens, hnone]

/-- The tokens of a place lead to the same tests without comments. A node that only held comments is
a token without them, but it is no brace and no dot. -/
lemma tokens_withoutComments (h : src.PlainComments) (hnested : src.WellNested)
    (hp : src.Has p) (hkept : isBareComment p = false) :
    (Marker.tokens p.withoutComments).filterMap (s.testAtToken? src.withoutComments) =
      (Marker.tokens p).filterMap (s.testAtToken? src) := by
  induction p using inductionOn with
  | step p ih =>
    have hnil (q : Place) : q.children = [] ↔ q.node.children = [] := by simp [children]
    by_cases hnone : p.node.children = []
    · have hnone' : p.withoutComments.node.children = [] := by
        rw [← hnil, children_withoutComments hkept, (hnil p).mpr hnone]
        rfl
      rw [tokens_of_childless hnone, tokens_of_childless hnone', List.filterMap_cons,
        List.filterMap_cons, h.spares.testAtToken?_without ⟨hp, hkept⟩]
      rfl
    have hcomment : ∀ c ∈ p.children, isBareComment c = true →
        (if isDeclaration c.node then [] else Marker.tokens c).filterMap (s.testAtToken? src) =
          [] := by
      intro c hc hbare
      obtain ⟨-, hcomment, hnone⟩ := isBareComment_iff.mp hbare
      rw [tokens_of_childless hnone]
      split
      · rfl
      · simp [testAtToken?_of_comment hcomment]
    have hsame : (p.withoutComments.children.flatMap fun c =>
        (if isDeclaration c.node then [] else Marker.tokens c).filterMap
          (s.testAtToken? src.withoutComments)) = p.children.flatMap fun c =>
        (if isDeclaration c.node then [] else Marker.tokens c).filterMap
          (s.testAtToken? src) := by
      apply flatMap_children_withoutComments hkept hcomment
      intro c hc hkept
      rw [isDeclaration_without]
      split
      · rfl
      · exact ih c hc (hp.child hc rfl) hkept
    rw [Marker.tokens_eq_flatMap hnone, List.filterMap_flatMap, ← hsame]
    by_cases hnone' : p.withoutComments.node.children = []
    · have hnamed : p.named = true := by
        rw [← Bool.not_eq_false]
        exact fun hanonymous => hnone (hnested.tokens p (mem_preorder.mpr hp) (.inl hanonymous))
      rw [tokens_of_childless hnone', List.filterMap_cons,
        testAtToken?_of_named ((named_without isBareComment p).trans hnamed), (hnil _).mpr hnone']
      rfl
    · rw [Marker.tokens_eq_flatMap hnone', List.filterMap_flatMap]

end Source.PlainComments

namespace Discovery

variable {src : Source} {offset : Nat} {s : Style} {decl : Declaration}

lemma testsOf_withoutComments (r : Registry) (h : src.PlainComments) (hnested : src.WellNested)
    (hdecl : decl ∈ declarations src) :
    Marker.testsOf r src.withoutComments (specOf src decl s) =
      Marker.testsOf r src (specOf src decl s) := by
  rw [Marker.testsOf, h.declarationOf?_withoutComments hnested hdecl, Marker.testsOf]
  cases r.byName? (specOf src decl s).style with
  | none => rfl
  | some style =>
    cases hbody : Marker.declarationOf? src (specOf src decl s) with
    | none => rfl
    | some body =>
      obtain ⟨p, hp, hbody⟩ := Option.bind_eq_some_iff.mp hbody
      have hbodyKind := List.find?_some hbody
      have hhas := (below_of_mem_selfAndAncestors (Source.has_of_resolve_eq_some hp).1
        (List.mem_of_find?_eq_some hbody)).1
      have htokens := h.tokens_withoutComments (s := style) hnested hhas
        (isBareComment_of_isDeclaration hbodyKind)
      rw [Option.map_some]
      dsimp only
      rw [htokens]

lemma markers_withoutComments (d : Discovery) (h : src.PlainComments) (hnested : src.WellNested) :
    d.markers src.withoutComments = d.markers src := by
  rw [markers, specs_withoutComments d h, markers]
  apply congrArg (List.mergeSort · Marker.before)
  apply List.flatMap_congr
  intro spec hspec
  obtain ⟨decl, hdecl, s, -, rfl⟩ := mem_specs hspec
  rw [testsOf_withoutComments d.registry h hnested hdecl]

end Discovery

lemma Source.WellNested.withoutComments {src : Source} (h : src.WellNested) :
    src.withoutComments.WellNested := by
  have hmem {p : Place} (hp : p ∈ src.withoutComments.rootPlace.preorder) :
      ∃ q ∈ src.rootPlace.preorder, isBareComment q = false ∧ q.withoutComments = p := by
    rw [rootPlace_without, preorder_without (isBareComment_root src)] at hp
    obtain ⟨q, hq, rfl⟩ := List.mem_map.mp hp
    obtain ⟨hq, hkept⟩ := List.mem_filter.mp hq
    exact ⟨q, hq, by simpa using hkept, rfl⟩
  constructor
  · have hstop : src.withoutComments.root.stop = src.root.stop :=
      stop_without isBareComment src.rootPlace
    exact Nat.le_trans (Nat.le_of_eq hstop) h.inText
  · intro p hp
    obtain ⟨q, hq, -, rfl⟩ := hmem hp
    rw [start_without, stop_without]
    exact h.ranged q hq
  · intro p hp c hc
    obtain ⟨q, hq, hkept, rfl⟩ := hmem hp
    rw [children_withoutComments hkept] at hc
    obtain ⟨d, hd, rfl⟩ := List.mem_map.mp hc
    simp only [start_without, stop_without]
    exact h.inside q hq d (List.mem_filter.mp hd).1
  · intro p hp
    obtain ⟨q, hq, hkept, rfl⟩ := hmem hp
    rw [children_withoutComments hkept, List.pairwise_map]
    simp only [start_without, stop_without]
    exact (h.ordered q hq).filter _
  · intro p hp htoken
    obtain ⟨q, hq, hkept, rfl⟩ := hmem hp
    rw [named_without, isComment_without] at htoken
    have hnone : q.children = [] := by simp [children, h.tokens q hq htoken]
    have hnone' := children_withoutComments hkept
    rw [hnone] at hnone'
    simpa [children] using hnone'

namespace Discovery

variable {src : Source} {offset : Nat} {s : Style} {decl : Declaration}

lemma covers_without (loose : Place → Bool) (p : Place) (offset : Nat) :
    (p.without loose).node.covers offset = p.node.covers offset :=
  congrArg (fun tag => Node.covers (.node tag []) offset) (tag_without loose p)

lemma owner?_map (d : Discovery) {f : Place → Place}
    (hf : ∀ p, (f p).node.covers offset = p.node.covers offset) (all : List Declaration) :
    d.owner? (all.map (Declaration.map f)) offset =
      (d.owner? all offset).map fun (decl, s) => (decl.map f, s) := by
  have hcovers (decl : Declaration) : (decl.map f).place.node.covers offset =
      decl.place.node.covers offset := hf decl.place
  rw [owner?, owner?, ← List.map_reverse, List.filter_map, ← List.head?_filterMap,
    ← List.head?_filterMap, List.filterMap_map, ← List.head?_map, List.map_filterMap]
  simp only [Function.comp_def, hcovers, styleFor?_map, Option.map_map]

lemma innermost?_withoutComments (h : src.PlainComments) (hdecl : decl ∈ declarations src) :
    innermost? src.withoutComments (decl.map withoutComments) s offset =
      (innermost? src decl s offset).map withoutComments := by
  have hhas := (mem_declarations hdecl).1
  have hplace : (decl.map withoutComments).place = decl.place.withoutComments := rfl
  rw [innermost?, marked, hplace, preorder_without (isBareComment_of_declaration hdecl),
    List.filter_map, List.filter_filter, List.getLast?_map, innermost?, marked]
  apply congrArg (fun l : List Place => l.getLast?.map withoutComments)
  apply List.filter_congr
  intro p hp
  have hp := hhas.trans (mem_preorder.mp hp)
  cases hbare : isBareComment p with
  | true => simp [marks, h.spares.test?_of_loose hp hbare]
  | false => simp [marks, covers_without, h.test?_withoutComments hp hbare]

lemma testAt?_withoutComments (h : src.PlainComments) (hnested : src.WellNested)
    (hdecl : decl ∈ declarations src) (hcovers : decl.place.node.covers offset = true) :
    testAt? src.withoutComments (decl.map withoutComments) s offset =
      testAt? src decl s offset := by
  have hdecl' : decl.map withoutComments ∈ declarations src.withoutComments := by
    rw [declarations_withoutComments h]
    exact List.mem_map_of_mem hdecl
  have hcovers' : (decl.map withoutComments).place.node.covers offset = true :=
    (covers_without isBareComment decl.place offset).trans hcovers
  rw [testAt?_eq hnested.withoutComments hdecl' hcovers', testAt?_eq hnested hdecl hcovers,
    innermost?_withoutComments h hdecl, Option.bind_map]
  apply Option.bind_congr
  intro n hn
  obtain ⟨hbelow, -, hsome⟩ := mem_marked.mp ((innermost?_eq_some_iff hnested hdecl).mp hn).1
  have hhas := (mem_declarations hdecl).1.trans hbelow
  have hkept : isBareComment n = false := by
    rw [← Bool.not_eq_true]
    intro hbare
    simp [h.spares.test?_of_loose hhas hbare] at hsome
  exact h.test?_withoutComments hhas hkept

lemma enclosing_withoutComments (d : Discovery) (h : src.PlainComments)
    (hnested : src.WellNested) (offset : Nat) :
    d.enclosing src.withoutComments offset = d.enclosing src offset := by
  have hcovers (p : Place) : p.withoutComments.node.covers offset = p.node.covers offset :=
    covers_without isBareComment p offset
  rw [enclosing, declarations_withoutComments h, owner?_map d hcovers, Option.map_map, enclosing]
  cases howner : d.owner? (declarations src) offset with
  | none => rfl
  | some owner =>
    obtain ⟨decl, s⟩ := owner
    obtain ⟨hdecl, hcovers, -⟩ := owner?_eq_some howner
    have htest := testAt?_withoutComments (s := s) h hnested hdecl hcovers
    rw [Option.map_some, Option.map_some, Function.comp_apply]
    dsimp only
    rw [htest]
    rfl

/-- Without its comments a file declares and lists the same, in a well-nested tree it has the same
markers, and the same is found at each offset. -/
theorem unchanged_withoutComments (d : Discovery) (src : Source) (h : src.PlainComments) :
    (src.withoutComments.chars = src.chars ∧ src.withoutComments.rootPlace.preorder =
      (src.rootPlace.preorder.filter fun p => !isBareComment p).map withoutComments) ∧
    ((declarations src.withoutComments).map fun e => (e.name, e.fqn, e.supertypes)) =
      ((declarations src).map fun e => (e.name, e.fqn, e.supertypes)) ∧
    d.specs src.withoutComments = d.specs src ∧
    (src.WellNested → d.markers src.withoutComments = d.markers src ∧
      ∀ offset, d.enclosing src.withoutComments offset = d.enclosing src offset) := by
  refine ⟨⟨rfl, ?_⟩, ?_, specs_withoutComments d h, fun hnested => ⟨?_, fun offset => ?_⟩⟩
  · rw [Source.rootPlace_without, preorder_without (isBareComment_root src)]
  · rw [declarations_withoutComments h, List.map_map]
    rfl
  · exact markers_withoutComments d h hnested
  · exact enclosing_withoutComments d h hnested offset

end Discovery

/-- A spec with a comment before its name, one before its test and one before the lambda of that. -/
def commentedSpec : Source where
  chars := "import io.kotest.core.spec.style.FunSpec\n".toList ++
    "class /*n*/ S : FunSpec(\x7b /*t*/ test(\"a\") /*l*/ \x7b \x7d \x7d)\n".toList
  -- The import is written as in `hiddenTest`.
  root := .rule "source_file" 0 96 (hiddenTest.root.children.take 1 ++ [
    .rule "class_declaration" 41 95 [
      .fixed "class" 41,
      .rule "block_comment" 47 52 [],
      .title 53 54,
      .fixed ":" 55,
      .rule "delegation_specifiers" 57 95 [
        .rule "delegation_specifier" 57 95 [
          .rule "constructor_invocation" 57 95 [
            .rule "user_type" 57 64 [.identifier 57 64],
            .rule "value_arguments" 64 95 [
              .fixed "(" 64,
              .rule "value_argument" 65 94 [
                .rule "lambda_literal" 65 94 [
                  .fixed "\x7b" 65,
                  .rule "block_comment" 67 72 [],
                  commentedTest,
                  .fixed "\x7d" 93]],
              .fixed ")" 94]]]]]])
where
  commentedTest : Node :=
    .rule "call_expression" 73 92 [
      .rule "call_expression" 73 82 [.identifier 73 77, .literalArgument 77 82],
      .rule "block_comment" 83 88 [],
      .rule "annotated_lambda" 89 92 [
        .rule "lambda_literal" 89 92 [.fixed "\x7b" 89, .fixed "\x7d" 91]]]

lemma commentedSpec_plainComments : commentedSpec.PlainComments where
  unnamed := by decide
  noEntry := by decide
  text := by decide

lemma commentedSpec_wellNested : commentedSpec.WellNested where
  inText := by decide
  ranged := by decide
  inside := by decide
  ordered := by decide
  tokens := by decide

/-- The spec and its test are found with the comments and without them. -/
theorem commentedSpec_unchanged : commentedSpec.PlainComments ∧ commentedSpec.WellNested ∧
    ((Discovery.ofConfig .standard).specs commentedSpec.withoutComments).map Spec.testCount = [1] ∧
    (Discovery.ofConfig .standard).markers commentedSpec.withoutComments =
      (Discovery.ofConfig .standard).markers commentedSpec := by
  obtain ⟨-, -, hspecs, hrest⟩ :=
    (Discovery.ofConfig .standard).unchanged_withoutComments commentedSpec commentedSpec_plainComments
  have hcount : ((Discovery.ofConfig .standard).specs commentedSpec).map Spec.testCount = [1] := by
    decide +kernel
  exact ⟨commentedSpec_plainComments, commentedSpec_wellNested, by rw [hspecs, hcount],
    (hrest commentedSpec_wellNested).1⟩

end SpecLens
