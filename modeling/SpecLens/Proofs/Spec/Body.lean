import SpecLens.Proofs.Style.TokenForm
import SpecLens.Spec.Marker

/-!
# The body of a declaration

The tests of a spec are the recognized nodes of a walk through the body of its declaration that
enters no other declaration, and its tokens are the leaves of such a walk. This file writes both
lists, and that of the declarations, as what is reached from a place.
-/

namespace SpecLens

open Kotlin Place

/-- A node that the search for tests enters. -/
def bodyNode (n : Node) : Bool := n.named && !n.isComment && !isDeclaration n

/-- What the grammar promises of calls and declarations: no two have one range. -/
def Source.DistinctRanges (src : Source) : Prop :=
  ∀ p ∈ src.rootPlace.preorder, (isCall p || isDeclaration p.node) = true →
    ∀ q ∈ src.rootPlace.preorder, (isCall q || isDeclaration q.node) = true →
      p.start = q.start → p.stop = q.stop → p.path = q.path

namespace TestTree

lemma flattenAll_eq (ts : List TestTree) : flattenAll ts = ts.flatMap flatten := by
  induction ts with
  | nil => rfl
  | cons t ts ih => rw [flattenAll, ih, List.flatMap_cons]

lemma flattenAll_flatMap {α : Type} (l : List α) (f : α → List TestTree) :
    flattenAll (l.flatMap f) = l.flatMap fun a => flattenAll (f a) := by
  simp only [flattenAll_eq, List.flatMap_assoc]

end TestTree

lemma testsUnder_eq (s : Style) (src : Source) (p : Place) :
    testsUnder s src p.node p.above p.node.children 0 =
      p.children.flatMap fun c => if bodyNode c.node then testsAt s src c.node c.above else [] := by
  apply eq_flatMap_children
  · intro index
    rw [testsUnder]
  · intro child rest index
    rw [testsUnder]
    rfl

lemma testsAt_eq (s : Style) (src : Source) (p : Place) : testsAt s src p.node p.above =
    match s.test? src p with
    | some t =>
      if t.isContainer then [.node t (testsUnder s src p.node p.above p.node.children 0)]
      else .node t [] :: testsUnder s src p.node p.above p.node.children 0
    | none => testsUnder s src p.node p.above p.node.children 0 := by
  obtain ⟨⟨tag, children⟩, above⟩ := p
  rw [testsAt]
  rfl

/-- The tests at a place, however they nest, are those of the nodes reached from it. -/
lemma flattenAll_testsAt (s : Style) (src : Source) (p : Place) :
    TestTree.flattenAll (testsAt s src p.node p.above) =
      (visit bodyNode p).filterMap (s.test? src) := by
  induction p using inductionOn with
  | step p ih =>
    have hinside : TestTree.flattenAll (testsUnder s src p.node p.above p.node.children 0) =
        (visit bodyNode p).tail.filterMap (s.test? src) := by
      rw [testsUnder_eq, TestTree.flattenAll_flatMap, visit_tail, List.filterMap_flatMap]
      apply List.flatMap_congr
      intro c hc
      split
      · exact ih c hc
      · rfl
    rw [testsAt_eq, visit_eq, List.filterMap_cons, ← visit_tail, ← hinside]
    cases s.test? src p with
    | none => rfl
    | some t =>
      cases hkind : t.isContainer with
      | true => simp [hkind, TestTree.flattenAll, TestTree.flatten]
      | false => simp [hkind, TestTree.flattenAll, TestTree.flatten]

/-- The tests of a spec in source order. -/
theorem Discovery.allTests_specOf (src : Source) (decl : Declaration) (s : Style) :
    (specOf src decl s).allTests = (visit bodyNode decl.place).tail.filterMap (s.test? src) := by
  rw [Spec.allTests, specOf, testsUnder_eq, TestTree.flattenAll_flatMap, visit_tail,
    List.filterMap_flatMap]
  apply List.flatMap_congr
  intro c hc
  split
  · exact flattenAll_testsAt s src c
  · rfl

namespace Marker

lemma tokensUnder_eq (p : Place) :
    tokensUnder p.node p.above p.node.children 0 =
      p.children.flatMap fun c => tokensAt c.node c.above := by
  apply eq_flatMap_children
  · intro index
    rw [tokensUnder]
  · intro child rest index
    rw [tokensUnder]
    rfl

lemma tokensAt_eq (p : Place) :
    tokensAt p.node p.above = if isDeclaration p.node then [] else tokens p := by
  obtain ⟨⟨tag, children⟩, above⟩ := p
  cases children with
  | nil =>
    rw [tokensAt]
    rfl
  | cons child rest =>
    rw [tokensAt]
    rfl

lemma tokens_eq_flatMap {p : Place} (h : p.node.children ≠ []) :
    tokens p = p.children.flatMap fun c => if isDeclaration c.node then [] else tokens c := by
  obtain ⟨child, rest, hchildren⟩ := List.exists_cons_of_ne_nil h
  have htokens : tokens p = p.children.flatMap fun c => tokensAt c.node c.above := by
    rw [← tokensUnder_eq, tokens, hchildren]
  simp only [htokens, tokensAt_eq]

theorem mem_tokens {p q : Place} :
    q ∈ tokens p ↔ Inside p q ∧ q.node.children = [] := by
  induction p using inductionOn with
  | step p ih =>
    rw [Inside, Reach.iff_child]
    cases hchildren : p.node.children with
    | nil =>
      have hnone : p.children = [] := by simp [Place.children, hchildren]
      simp only [tokens, hchildren, hnone, List.mem_singleton, List.not_mem_nil, false_and,
        exists_false, or_false]
      constructor
      · rintro rfl
        exact ⟨rfl, hchildren⟩
      · exact And.left
    | cons child rest =>
      rw [tokens_eq_flatMap (by simp [hchildren]), List.mem_flatMap]
      constructor
      · rintro ⟨c, hc, hq⟩
        split at hq
        · simp at hq
        · rename_i hplain
          obtain ⟨hinside, hleaf⟩ := (ih c hc).mp hq
          exact ⟨.inr ⟨c, hc, by simpa using hplain, hinside⟩, hleaf⟩
      · rintro ⟨rfl | ⟨c, hc, hplain, hinside⟩, hleaf⟩
        · simp [hchildren] at hleaf
        · refine ⟨c, hc, ?_⟩
          rw [if_neg (by simpa using hplain)]
          exact (ih c hc).mpr ⟨hinside, hleaf⟩

end Marker

/-! ### Declarations -/

namespace Kotlin

/-- A node that the search for declarations enters. -/
def walkedNode (n : Node) : Bool := n.named && !n.isComment

lemma isComment_of_isDeclaration {n : Node} (hn : isDeclaration n = true) :
    n.isComment = false := by
  have hall : ∀ kind ∈ declarationKinds,
      Text.containsText "comment".toList kind.toList = false := by
    decide
  exact hall _ (List.contains_iff_mem.mp hn)

lemma declarationsUnder_eq (src : Source) (h : Header) (outer : List String) (p : Place) :
    declarationsUnder src h outer p.node p.above p.node.children 0 =
      p.children.flatMap fun c =>
        if walkedNode c.node then declarationsOf src h outer c.node c.above else [] := by
  apply eq_flatMap_children
  · intro index
    rw [declarationsUnder]
  · intro child rest index
    rw [declarationsUnder]
    rfl

lemma declarationsOf_eq (src : Source) (h : Header) (outer : List String) (p : Place) :
    declarationsOf src h outer p.node p.above =
      if isDeclaration p.node then
        declarationAt src h outer p ::
          declarationsUnder src h (outer ++ [(declarationAt src h outer p).name]) p.node p.above
            p.node.children 0
      else declarationsUnder src h outer p.node p.above p.node.children 0 := by
  obtain ⟨⟨tag, children⟩, above⟩ := p
  rw [declarationsOf]
  rfl

/-- A declaration comes from a place below the one where the search starts. -/
lemma mem_declarationsOf {src : Source} {h : Header} {outer : List String} {p : Place}
    {d : Declaration} (hd : d ∈ declarationsOf src h outer p.node p.above) :
    ∃ q outer', Below p q ∧ isDeclaration q.node = true ∧ d = declarationAt src h outer' q := by
  induction p using inductionOn generalizing outer with
  | step p ih =>
    have hunder {names : List String}
        (hd : d ∈ declarationsUnder src h names p.node p.above p.node.children 0) :
        ∃ q outer', Below p q ∧ isDeclaration q.node = true ∧ d = declarationAt src h outer' q := by
      rw [declarationsUnder_eq] at hd
      obtain ⟨c, hc, hd⟩ := List.mem_flatMap.mp hd
      split at hd
      · obtain ⟨q, outer', hq, hdecl, heq⟩ := ih c hc hd
        exact ⟨q, outer', (below_of_mem_children hc).trans hq, hdecl, heq⟩
      · simp at hd
    rw [declarationsOf_eq] at hd
    split at hd
    · rename_i hdecl
      rcases List.mem_cons.mp hd with rfl | hd
      · exact ⟨p, outer, .refl, hdecl, rfl⟩
      · exact hunder hd
    · exact hunder hd

/-- The name of a class or object, empty if it has none. -/
def declaredName (src : Source) (p : Place) : String :=
  ((declarationName? p).map fun n => unquoted (src.textOf n)).getD ""

/-- The classes and objects of a file around a place, outermost first. The last place on the way up
is the root, which is the file itself. -/
def outerDeclarations (p : Place) : List Place :=
  (p.ancestors.dropLast.filter (isDeclaration ·.node)).reverse

/-- The names that stand before the one of a declaration. -/
def outerNames (src : Source) (p : Place) : List String :=
  (outerDeclarations p).map (declaredName src)

lemma above_ne_nil_of_mem_children {p c : Place} (hc : c ∈ p.children) : c.above ≠ [] := by
  obtain ⟨index, child, -, rfl⟩ := mem_children.mp hc
  exact List.cons_ne_nil _ _

lemma outerDeclarations_of_mem_rootChildren {src : Source} {c : Place}
    (hc : c ∈ src.rootPlace.children) : outerDeclarations c = [] := by
  rw [outerDeclarations, ancestors_of_parent (parent_of_mem_children hc)]
  rfl

lemma outerDeclarations_of_mem_children {p c : Place} (hp : p.above ≠ []) (hc : c ∈ p.children) :
    outerDeclarations c =
      outerDeclarations p ++ if isDeclaration p.node then [p] else [] := by
  have hway : p.ancestors ≠ [] := by
    obtain ⟨step, above, habove⟩ := List.exists_cons_of_ne_nil hp
    simp [ancestors, habove, alongWay]
  rw [outerDeclarations, ancestors_of_parent (parent_of_mem_children hc), selfAndAncestors,
    List.dropLast_cons_of_ne_nil hway, List.filter_cons, outerDeclarations]
  split <;> simp

lemma declarationsUnder_eq_map_visit {src : Source} {h : Header} {names : List String} {p : Place}
    (hnames : ∀ c ∈ p.children, outerNames src c = names)
    (ih : ∀ c ∈ p.children, declarationsOf src h (outerNames src c) c.node c.above =
      ((visit walkedNode c).filter (isDeclaration ·.node)).map fun q =>
        declarationAt src h (outerNames src q) q) :
    declarationsUnder src h names p.node p.above p.node.children 0 =
      ((visit walkedNode p).tail.filter (isDeclaration ·.node)).map fun q =>
        declarationAt src h (outerNames src q) q := by
  rw [declarationsUnder_eq, visit_tail, List.filter_flatMap, List.map_flatMap]
  apply List.flatMap_congr
  intro c hc
  split
  · rw [← hnames c hc]
    exact ih c hc
  · rfl

/-- The names that the search carries along are those of the declarations around a place. -/
lemma declarationsOf_eq_map_visit (src : Source) (h : Header) {p : Place} (hp : p.above ≠ []) :
    declarationsOf src h (outerNames src p) p.node p.above =
      ((visit walkedNode p).filter (isDeclaration ·.node)).map fun q =>
        declarationAt src h (outerNames src q) q := by
  induction p using inductionOn with
  | step p ih =>
    have hunder {names : List String} (hnames : ∀ c ∈ p.children, outerNames src c = names) :=
      declarationsUnder_eq_map_visit hnames fun c hc => ih c hc (above_ne_nil_of_mem_children hc)
    rw [declarationsOf_eq, visit_eq, ← visit_tail, List.filter_cons]
    split
    · rename_i hdecl
      rw [List.map_cons, ← hunder]
      intro c hc
      rw [outerNames, outerDeclarations_of_mem_children hp hc, if_pos hdecl, List.map_append]
      rfl
    · rename_i hplain
      rw [← hunder]
      intro c hc
      rw [outerNames, outerDeclarations_of_mem_children hp hc, if_neg hplain, List.append_nil]
      rfl

/-- The declarations of a file, in source order. -/
theorem declarations_eq_map_visit (src : Source) : declarations src =
    ((visit walkedNode src.rootPlace).tail.filter (isDeclaration ·.node)).map fun q =>
      declarationAt src (.read src) (outerNames src q) q := by
  have hnames : ∀ c ∈ src.rootPlace.children, outerNames src c = [] := by
    intro c hc
    rw [outerNames, outerDeclarations_of_mem_rootChildren hc]
    rfl
  have hunder := declarationsUnder_eq_map_visit hnames fun c hc =>
    declarationsOf_eq_map_visit src (.read src) (above_ne_nil_of_mem_children hc)
  exact hunder

/-- Every declaration of a file stands for a class or object of its tree. -/
theorem mem_declarations {src : Source} {d : Declaration} (hd : d ∈ declarations src) :
    src.Has d.place ∧ isDeclaration d.place.node = true ∧
      d.nameNode = declarationName? d.place := by
  rw [declarations_eq_map_visit] at hd
  obtain ⟨q, hq, rfl⟩ := List.mem_map.mp hd
  obtain ⟨hvisited, hdecl⟩ := List.mem_filter.mp hq
  exact ⟨(mem_visit.mp (List.mem_of_mem_tail hvisited)).toBelow, hdecl, rfl⟩

/-- The places of the declarations of a file, in source order. -/
theorem map_place_declarations (src : Source) : (declarations src).map (·.place) =
    (visit walkedNode src.rootPlace).tail.filter (isDeclaration ·.node) := by
  rw [declarations_eq_map_visit, List.map_map]
  exact List.map_id _

/-- No declaration is listed before one around it, and none twice. -/
lemma declarations_ordered (src : Source) :
    (declarations src).Pairwise fun d e => ¬Below e.place d.place := by
  rw [← List.pairwise_map (f := Declaration.place) (R := fun p q => ¬Below q p),
    map_place_declarations]
  exact (visit_pairwise _ _).tail.filter _

end Kotlin

/-! ### Recognized nodes in a body -/

/-- A node with children is one the search for declarations enters. -/
lemma Source.BareTokens.walkedNode_of_children {src : Source} {p : Place} (h : src.BareTokens)
    (hp : src.Has p) (hchildren : p.node.children ≠ []) : walkedNode p.node = true := by
  have hnamed : ¬(p.named = false ∨ p.node.isComment = true) := fun hor =>
    hchildren (h p (mem_preorder.mpr hp) hor)
  simp only [not_or, Bool.not_eq_false, Bool.not_eq_true] at hnamed
  simp only [walkedNode, Bool.and_eq_true, Bool.not_eq_true']
  exact hnamed

/-- A node with children that stands inside a place is one the search for tests enters. -/
lemma Source.BareTokens.reach_bodyNode {src : Source} {p q : Place} (h : src.BareTokens)
    (hp : src.Has p) (hq : Inside p q) (hchildren : q.node.children ≠ []) : Reach bodyNode p q := by
  induction hq with
  | refl => exact .refl
  | @down q index child hq hc hplain ih =>
    have hparent : q.node.children ≠ [] := List.ne_nil_of_mem (List.mem_of_getElem? hc)
    have hwalked := h.walkedNode_of_children ((hp.trans hq.toBelow).down hc rfl) hchildren
    refine (ih hparent).down hc ?_
    rw [bodyNode, ← walkedNode, Bool.and_eq_true]
    exact ⟨hwalked, hplain⟩

namespace Style

variable {s : Style} {src : Source} {p q : Place} {t u : Test}

lemma isCall_of_test? (h : s.test? src p = some t) : isCall p = true := by
  obtain ⟨c, -, hc, -⟩ := hasBlock_of_test? h
  exact isCall_of_call? hc

lemma not_isDeclaration_of_test? (h : s.test? src p = some t) : isDeclaration p.node = false :=
  not_isDeclaration_of_isCall (isCall_of_test? h)

lemma children_ne_nil_of_test? (h : s.test? src p = some t) : p.node.children ≠ [] := by
  obtain ⟨c, -, hc, -⟩ := hasBlock_of_test? h
  exact children_ne_nil_of_call? hc

lemma anchor_of_test? (h : s.test? src p = some t) : t.anchor = src.anchorOf p := by
  obtain ⟨d, -, rfl⟩ := Option.map_eq_some_iff.mp h
  rfl

/-- Anchors tell recognized nodes apart. -/
lemma eq_of_anchor_eq {s' : Style} (h : src.DistinctRanges) (hp : src.Has p) (hq : src.Has q)
    (ht : s.test? src p = some t) (hu : s'.test? src q = some u) (heq : t.anchor = u.anchor) :
    p = q := by
  rw [anchor_of_test? ht, anchor_of_test? hu] at heq
  have hpath := h p (mem_preorder.mpr hp) (by simp [isCall_of_test? ht]) q (mem_preorder.mpr hq)
    (by simp [isCall_of_test? hu]) (congrArg Anchor.startByte heq) (congrArg Anchor.endByte heq)
  exact eq_of_path_eq hp hq hpath

lemma reach_bodyNode_iff (h : src.BareTokens) (hp : src.Has p) (hq : s.test? src q = some t) :
    Reach bodyNode p q ↔ Inside p q := by
  constructor
  · intro hreach
    refine hreach.mono fun n hn => ?_
    simp only [bodyNode, Bool.and_eq_true] at hn
    exact hn.2
  · exact fun hinside => h.reach_bodyNode hp hinside (children_ne_nil_of_test? hq)

end Style

namespace Discovery

variable {src : Source} {decl : Declaration} {s : Style} {t : Test}

lemma test?_declaration (hdecl : decl ∈ declarations src) : s.test? src decl.place = none := by
  rw [Option.eq_none_iff_forall_ne_some]
  intro t ht
  have hkind := (mem_declarations hdecl).2.1
  rw [Style.not_isDeclaration_of_test? ht] at hkind
  simp at hkind

lemma allTests_eq (hdecl : decl ∈ declarations src) :
    (specOf src decl s).allTests = (visit bodyNode decl.place).filterMap (s.test? src) := by
  rw [allTests_specOf, visit_eq, List.tail_cons, List.filterMap_cons, test?_declaration hdecl]

/-- A spec lists what its style recognizes inside its declaration. -/
theorem mem_allTests (h : src.WellNested) (hdecl : decl ∈ declarations src) :
    t ∈ (specOf src decl s).allTests ↔ ∃ n, Inside decl.place n ∧ s.test? src n = some t := by
  rw [allTests_eq hdecl, List.mem_filterMap]
  refine exists_congr fun n => and_congr_left fun ht => ?_
  rw [mem_visit, Style.reach_bodyNode_iff h.bareTokens (mem_declarations hdecl).1 ht]

end Discovery

/-- A spec with a test in the initializer of a class that stands in a container. -/
def hiddenTest : Source where
  chars := "import io.kotest.core.spec.style.FunSpec\n".toList ++
    "class S : FunSpec(\x7b\n context(\"c\") \x7b\n  class Plain \x7b\n   init \x7b\n".toList ++
    "    test(\"hidden\") \x7b \x7d\n   \x7d\n  \x7d\n \x7d\n\x7d)\n".toList
  root := .rule "source_file" 0 141 [
    .rule "import" 0 40 [
      .fixed "import" 0,
      .rule "qualified_identifier" 7 40 [
        .identifier 7 9, .fixed "." 9, .identifier 10 16, .fixed "." 16, .identifier 17 21,
        .fixed "." 21, .identifier 22 26, .fixed "." 26, .identifier 27 32, .fixed "." 32,
        .identifier 33 40]],
    .rule "class_declaration" 41 140 [
      .fixed "class" 41,
      .title 47 48,
      .fixed ":" 49,
      .rule "delegation_specifiers" 51 140 [
        .rule "delegation_specifier" 51 140 [
          .rule "constructor_invocation" 51 140 [
            .rule "user_type" 51 58 [.identifier 51 58],
            .rule "value_arguments" 58 140 [
              .fixed "(" 58,
              .rule "value_argument" 59 139 [
                .rule "lambda_literal" 59 139 [.fixed "\x7b" 59, container, .fixed "\x7d" 138]],
              .fixed ")" 139]]]]]]
where
  container : Node :=
    .rule "call_expression" 62 137 [
      .rule "call_expression" 62 74 [.identifier 62 69, .literalArgument 69 74],
      .rule "annotated_lambda" 75 137 [
        .rule "lambda_literal" 75 137 [
          .fixed "\x7b" 75,
          .rule "class_declaration" 79 134 [
            .fixed "class" 79,
            .title 85 90,
            .rule "class_body" 91 134 [.fixed "\x7b" 91, initializer, .fixed "\x7d" 133]],
          .fixed "\x7d" 136]]]
  initializer : Node :=
    .rule "anonymous_initializer" 96 130 [
      .fixed "init" 96,
      .rule "block" 101 130 [
        .fixed "\x7b" 101,
        .rule "call_expression" 107 125 [
          .rule "call_expression" 107 121 [.identifier 107 111, .literalArgument 111 121],
          .rule "annotated_lambda" 122 125 [
            .rule "lambda_literal" 122 125 [.fixed "\x7b" 122, .fixed "\x7d" 124]]],
        .fixed "\x7d" 129]]

lemma hiddenTest_wellNested : hiddenTest.WellNested where
  inText := by decide +kernel
  ranged := by decide +kernel
  inside := by decide +kernel
  ordered := by decide +kernel
  tokens := by decide +kernel

end SpecLens
