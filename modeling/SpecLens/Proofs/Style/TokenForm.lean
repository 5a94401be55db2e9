import SpecLens.Proofs.Kotlin.Block
import SpecLens.Style.Builtin

/-!
# Recognition from a node and from its tokens

A node that a style recognizes is a call with a trailing lambda. The brace of this lambda, and the
dot of a configured declaration, lead back to it; and a token leads to nothing but the innermost
recognized node around it.
-/

namespace SpecLens

open Kotlin Place

namespace Style

variable {s : Style} {src : Source} {p leaf : Place} {t : Test}

lemma keyword_of_find? {keywords : List Keyword} {k : Keyword} {name : String}
    (h : Keyword.find? keywords name = some k) : k ∈ keywords ∧ k.name = name :=
  ⟨List.mem_of_find?_eq_some h, by simpa using List.find?_some h⟩

lemma exists_of_declaredByCall? {keywords : List Keyword} {kind : TestKind} {d : Declared}
    (h : declaredByCall? src keywords kind p = some d) : ∃ c k l, shape p = .call c ∧
      identifierName? src c.callee = some k.name ∧ k ∈ keywords ∧
      literalOfCall? src [k.name] p = some l ∧ d = k.declare kind l := by
  unfold declaredByCall? at h
  split at h
  · rename_i c hshape
    simp only [bind, Option.bind_eq_some_iff] at h
    obtain ⟨name, hname, k, hk, l, hl, hd⟩ := h
    cases hd
    obtain ⟨hmem, rfl⟩ := keyword_of_find? hk
    exact ⟨c, k, l, hshape, hname, hmem, hl, rfl⟩
  · simp at h

lemma exists_of_declaredByChain? {keywords : List Keyword} {kind : TestKind} {d : Declared}
    (h : declaredByChain? src keywords kind p = some d) : ∃ e k l, shape p = .dot e ∧
      callName? src e.receiver = some k.name ∧ k ∈ keywords ∧
      literalOfChain? src [k.name] configMember p = some l ∧ d = k.declare kind l := by
  unfold declaredByChain? at h
  split at h
  · rename_i e hshape
    simp only [bind, Option.bind_eq_some_iff] at h
    obtain ⟨name, hname, k, hk, l, hl, hd⟩ := h
    cases hd
    obtain ⟨hmem, rfl⟩ := keyword_of_find? hk
    exact ⟨e, k, l, hshape, hname, hmem, hl, rfl⟩
  · simp at h

lemma leaf?_cases {d : Declared} (h : s.leaf? src p = some d) :
    s.bareStrings = true ∧ declaredByString? src p = some d ∨
      declaredByCall? src s.leafCalls .leaf p = some d ∨
      declaredByChain? src s.leafChains .leaf p = some d := by
  rcases Option.or_eq_some_iff.mp h with hstring | ⟨-, hkeyword⟩
  · split at hstring
    · rename_i hbare
      exact .inl ⟨hbare, hstring⟩
    · simp at hstring
  · exact .inr ((Option.or_eq_some_iff.mp hkeyword).imp_right And.right)

lemma container?_cases {d : Declared} (h : s.container? src p = some d) :
    declaredByCall? src s.containerCalls .container p = some d ∨
      declaredByChain? src s.containerChains .container p = some d :=
  (Option.or_eq_some_iff.mp h).imp_right And.right

lemma declared?_cases {d : Declared} (h : s.declared? src p = some d) :
    s.leaf? src p = some d ∨ s.container? src p = some d :=
  (Option.or_eq_some_iff.mp h).imp_right And.right

lemma hasBlock_of_declaredByCall? {keywords : List Keyword} {kind : TestKind} {d : Declared}
    (h : declaredByCall? src keywords kind p = some d) : HasBlock p := by
  obtain ⟨c, k, l, -, -, -, hl, -⟩ := exists_of_declaredByCall? h
  exact .of_literalOfCall? hl

lemma hasBlock_of_declaredByChain? {keywords : List Keyword} {kind : TestKind} {d : Declared}
    (h : declaredByChain? src keywords kind p = some d) : HasBlock p := by
  obtain ⟨e, k, l, -, -, -, hl, -⟩ := exists_of_declaredByChain? h
  exact .of_literalOfChain? hl

lemma hasBlock_of_declaredByString? {d : Declared} (h : declaredByString? src p = some d) :
    HasBlock p := by
  obtain ⟨l, hl, -⟩ := Option.map_eq_some_iff.mp h
  rcases Option.or_eq_some_iff.mp hl with hl | ⟨-, hl⟩
  · exact .of_literalOfInvoke? hl
  · exact .of_literalOfReceiver? hl

/-- Whatever a style recognizes is a call with a block. -/
theorem hasBlock_of_test? (h : s.test? src p = some t) : HasBlock p := by
  obtain ⟨d, hd, -⟩ := Option.map_eq_some_iff.mp h
  rcases declared?_cases hd with hleaf | hcontainer
  · rcases leaf?_cases hleaf with ⟨-, hstring⟩ | hcall | hchain
    · exact hasBlock_of_declaredByString? hstring
    · exact hasBlock_of_declaredByCall? hcall
    · exact hasBlock_of_declaredByChain? hchain
  · rcases container?_cases hcontainer with hcall | hchain
    · exact hasBlock_of_declaredByCall? hcall
    · exact hasBlock_of_declaredByChain? hchain

lemma test?_eq_none_of_isInner (s : Style) (src : Source) (h : isInner p = true) :
    s.test? src p = none := by
  rw [Option.eq_none_iff_forall_ne_some]
  intro t ht
  obtain ⟨c, -, hc, -⟩ := hasBlock_of_test? ht
  simp [isInner, isCall_of_call? hc] at h

/-- A token leads to a node above it, and between them there is neither a recognized node nor a
declaration. -/
theorem testAtToken?_eq_some (hleaf : src.Has leaf) (h : s.testAtToken? src leaf = some t) :
    isInner leaf = true ∧ ∃ n between, leaf.ancestors = between ++ n.selfAndAncestors ∧
      s.test? src n = some t ∧
      ∀ x ∈ between, isDeclaration x.node = false ∧ s.test? src x = none := by
  have hinner {x : Place} (hx : isInner x = true) :
      isDeclaration x.node = false ∧ s.test? src x = none := by
    refine ⟨?_, test?_eq_none_of_isInner s src hx⟩
    simp only [isInner, Bool.and_eq_true, Bool.not_eq_true'] at hx
    exact hx.2
  unfold testAtToken? at h
  split at h
  · rename_i n hn
    obtain ⟨hbrace, between, heq, hbetween⟩ := callOfBrace?_eq_some hn
    exact ⟨hbrace, n, between, heq, h, fun x hx => hinner (hbetween x hx)⟩
  · obtain ⟨n, hn, ht⟩ := Option.bind_eq_some_iff.mp h
    obtain ⟨hdot, nav, between, heq, hbetween, hnav, rfl | ⟨q, hparent, hcallee, rfl⟩⟩ :=
      expressionOfDot?_eq_some hn
    · rw [test?_eq_none_of_isInner s src hnav] at ht
      simp at ht
    have hnavRoot : src.Has nav := by
      refine (below_of_mem_selfAndAncestors hleaf (List.mem_cons_of_mem _ ?_)).1
      rw [heq]
      exact List.mem_append_right _ List.mem_cons_self
    have hqRoot := (mem_children_of_parent hnavRoot hparent).1
    have hq := (head?_of_isCalleeOf hnavRoot hparent hcallee).1
    have hways : leaf.ancestors = (between ++ [nav]) ++ q.selfAndAncestors := by
      rw [heq, selfAndAncestors, ancestors_of_parent hparent]
      simp
    have hbetween' : ∀ x ∈ between ++ [nav], isDeclaration x.node = false ∧ s.test? src x = none := by
      intro x hx
      rcases List.mem_append.mp hx with hx | hx
      · exact hinner (hbetween x hx)
      · exact hinner (List.mem_singleton.mp hx ▸ hnav)
    refine ⟨hdot, outermostCall q, ?_⟩
    -- Only the call of the member can stand between the dot and the recognized call.
    rcases HasBlock.chain hqRoot hq (hasBlock_of_test? ht) with hself | ⟨houter, -, hblock⟩
    · rw [hself] at ht ⊢
      exact ⟨_, hways, ht, hbetween'⟩
    · refine ⟨between ++ [nav] ++ [q], ?_, ht, fun x hx => ?_⟩
      · rw [hways, selfAndAncestors, ancestors_of_parent houter]
        simp
      · rcases List.mem_append.mp hx with hx | hx
        · exact hbetween' x hx
        · rw [List.mem_singleton.mp hx]
          refine ⟨not_isDeclaration_of_isCall hq, Option.eq_none_iff_forall_ne_some.mpr ?_⟩
          exact fun u hu => hblock (hasBlock_of_test? hu)

/-- A recognized node is recognized from the brace of its block, and from its dots if it is a
configured declaration that is not called itself. What a token is recognized as is the innermost
recognized node above it. -/
theorem testAtToken?_agrees (s : Style) (src : Source) (h : src.BracedLambdas) :
    (∀ n t, src.Has n → s.test? src n = some t →
      (∃ brace, openingBrace? n = some brace ∧ s.testAtToken? src brace = some t) ∧
      ((dotExpression? n).isSome → (∀ q, n.parent = some q → isCalleeOf n q = false) →
        separators n ≠ [] ∧ ∀ dot ∈ separators n, s.testAtToken? src dot = some t)) ∧
    ∀ leaf t, src.Has leaf → s.testAtToken? src leaf = some t →
      ∃ n, leaf.ancestors.find? (fun p => (s.test? src p).isSome) = some n ∧
        s.test? src n = some t := by
  constructor
  · intro n t hn ht
    have hblock := hasBlock_of_test? ht
    constructor
    · obtain ⟨brace, hbrace, hcall, -⟩ := hblock.openingBrace? h hn
      exact ⟨brace, hbrace, by simp [testAtToken?, hcall, ht]⟩
    · intro hdot houter
      obtain ⟨hne, hall⟩ := hblock.separators hdot houter
      refine ⟨hne, fun dot hmem => ?_⟩
      obtain ⟨hbrace, hexpression⟩ := hall dot hmem
      simp [testAtToken?, hbrace, hexpression, ht]
  · intro leaf t hleaf ht
    obtain ⟨-, n, between, heq, hn, hbetween⟩ := testAtToken?_eq_some hleaf ht
    refine ⟨n, ?_, hn⟩
    rw [List.find?_eq_some_iff_append]
    refine ⟨by simp [hn], between, n.ancestors, heq, fun x hx => ?_⟩
    simp [(hbetween x hx).2]

end Style

namespace Node

def rule (kind : String) (start stop : Nat) (children : List Node) : Node :=
  .node ⟨kind, true, false, false, false, start, stop⟩ children

def fixed (text : String) (start : Nat) : Node :=
  .node ⟨text, false, false, false, false, start, start + text.length⟩ []

def identifier (start stop : Nat) : Node := .rule "identifier" start stop []

/-- The identifier in the name field of its parent. -/
def title (start stop : Nat) : Node := .node ⟨"identifier", true, true, false, false, start, stop⟩ []

/-- A string literal in parentheses. -/
def literalArgument (start stop : Nat) : Node :=
  .rule "value_arguments" start stop [
    .fixed "(" start,
    .rule "value_argument" (start + 1) (stop - 1) [
      .rule "string_literal" (start + 1) (stop - 1) [
        .fixed "\"" (start + 1),
        .rule "string_content" (start + 2) (stop - 2) [],
        .fixed "\"" (stop - 2)]],
    .fixed ")" (stop - 1)]

end Node

/-- A test with a configuration. -/
def configuredTest : Source where
  chars := "test(\"a\").config() \x7b \x7d".toList
  root := .rule "source_file" 0 22 [
    .rule "call_expression" 0 22 [
      .rule "call_expression" 0 18 [
        .rule "navigation_expression" 0 16 [
          .rule "call_expression" 0 9 [.identifier 0 4, .literalArgument 4 9],
          .fixed "." 9,
          .identifier 10 16],
        .rule "value_arguments" 16 18 [.fixed "(" 16, .fixed ")" 17]],
      .rule "annotated_lambda" 19 22 [
        .rule "lambda_literal" 19 22 [.fixed "\x7b" 19, .fixed "\x7d" 21]]]]

/-- The configured test is recognized from its brace and from its dot. -/
theorem configured_test_recognized : configuredTest.BracedLambdas ∧
    ∃ n t brace, Style.funStyle.test? configuredTest n = some t ∧
      openingBrace? n = some brace ∧ Style.funStyle.testAtToken? configuredTest brace = some t ∧
      separators n ≠ [] ∧
      ∀ dot ∈ separators n, Style.funStyle.testAtToken? configuredTest dot = some t := by
  have hbraced : configuredTest.BracedLambdas := by
    unfold Source.BracedLambdas
    decide +kernel
  have hfound : ∃ n ∈ configuredTest.rootPlace.preorder,
      (Style.funStyle.test? configuredTest n).isSome = true ∧ (dotExpression? n).isSome = true ∧
        ∀ q ∈ n.parent, isCalleeOf n q = false := by
    decide +kernel
  obtain ⟨n, hn, hsome, hdot, houter⟩ := hfound
  obtain ⟨t, ht⟩ := Option.isSome_iff_exists.mp hsome
  obtain ⟨⟨brace, hbrace, hleaf⟩, hdots⟩ :=
    (Style.testAtToken?_agrees Style.funStyle configuredTest hbraced).1 n t (mem_preorder.mp hn) ht
  exact ⟨hbraced, n, t, brace, ht, hbrace, hleaf, hdots hdot houter⟩

end SpecLens
