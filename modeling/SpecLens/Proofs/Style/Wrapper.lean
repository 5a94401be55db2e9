import SpecLens.Proofs.Kotlin.SpareToken
import SpecLens.Proofs.Style.Container

/-!
# Recognition without spare nodes

A node is recognized by the shape of its expression and by those of the expressions around it, so it
declares the same test without the spare nodes. Grammars differ by such nodes: some put the parts of
a call or of a member access into wrappers, others do not.
-/

namespace SpecLens

open Kotlin Place

namespace Source.Spares

variable {src : Source} {loose : Place → Bool} {p token : Place} {s : Style}

/-- No call is spare, so no spare node declares anything. -/
lemma test?_of_loose (h : src.Spares loose) (hp : src.Has p) (hloose : loose p = true) :
    s.test? src p = none := by
  rw [Option.eq_none_iff_forall_ne_some]
  intro t ht
  obtain ⟨c, -, hc, -⟩ := Style.hasBlock_of_test? ht
  simp [(h.keeps_of_isCall hp (isCall_of_call? hc)).2] at hloose

/-- Around a kept node stand the same containers. -/
lemma parents_without (h : src.Spares loose) (hp : src.Keeps loose p) :
    s.parents (src.without loose) (p.without loose) = s.parents src p := by
  unfold Style.parents
  rw [ancestors_without, List.filterMap_map, List.filterMap_filter]
  apply congrArg
  apply List.filterMap_congr
  intro q hq
  have hhas := (below_of_mem_selfAndAncestors hp.1 (List.mem_cons_of_mem _ hq)).1
  cases hloose : loose q with
  | true =>
    have hnone : s.container? src q = none :=
      Style.container?_eq_none_of_test? (h.test?_of_loose hhas hloose)
    simp [hnone]
  | false => simp [h.carries.container?_eq ⟨hhas, hloose⟩]

/-- A kept node declares the same test without the spare nodes. -/
theorem test?_without (h : src.Spares loose) (hp : src.Keeps loose p) :
    s.test? (src.without loose) (p.without loose) = s.test? src p := by
  have hbuild : s.build (src.without loose) (p.without loose) = s.build src p := by
    funext d
    simp only [Style.build, h.parents_without hp, anchorOf_without]
  rw [Style.test?, h.carries.declared?_eq hp, hbuild, Style.test?]

/-- A kept token leads to the same test without the spare nodes. -/
theorem testAtToken?_without (h : src.Spares loose) (htoken : src.Keeps loose token) :
    s.testAtToken? (src.without loose) (token.without loose) = s.testAtToken? src token := by
  unfold Style.testAtToken?
  rw [h.callOfBrace?_without htoken, h.expressionOfDot?_without htoken]
  cases hcall : callOfBrace? token with
  | some call => exact h.test?_without (h.keeps_of_callOfBrace? htoken.1 hcall)
  | none =>
    simp only [Option.map_none, Option.bind_map]
    exact Option.bind_congr fun p hp =>
      h.test?_without (h.keeps_of_expressionOfDot? htoken.1 hp)

end Source.Spares

/-- `wrapped` is `src` with wrappers around parts of calls and of member accesses, wherever
`wrapper` says. -/
structure Source.IsWrapping (src wrapped : Source) (wrapper : Place → Bool) : Prop where
  wraps : ∀ p ∈ wrapped.rootPlace.preorder, wrapper p = true → isWrapper p = true
  unwraps : wrapped.without wrapper = src

/-- Wrappers change nothing. The nodes of the tree without them are those of the tree with them, in
the same order and with the same tags, and from each a style recognizes the same test. -/
theorem Style.test?_wrapped (s : Style) (src wrapped : Source) (wrapper : Place → Bool)
    (h : src.IsWrapping wrapped wrapper) :
    src.rootPlace.preorder =
      (wrapped.rootPlace.preorder.filter fun p => !wrapper p).map (·.without wrapper) ∧
    ∀ p ∈ wrapped.rootPlace.preorder, wrapper p = false →
      (p.without wrapper).node.tag = p.node.tag ∧
      s.test? wrapped p = s.test? src (p.without wrapper) ∧
      s.testAtToken? wrapped p = s.testAtToken? src (p.without wrapper) := by
  obtain ⟨hwrapper, rfl⟩ := h
  have hspares : wrapped.Spares wrapper := fun p hp hloose => by
    rw [isSpare, hwrapper p hp hloose, Bool.or_true]
  refine ⟨by rw [Source.rootPlace_without, preorder_without hspares.root], fun p hp hkept => ?_⟩
  have hkeeps : wrapped.Keeps wrapper p := ⟨mem_preorder.mp hp, hkept⟩
  exact ⟨tag_without wrapper p, (hspares.test?_without hkeeps).symm,
    (hspares.testAtToken?_without hkeeps).symm⟩

/-- The configured test as another grammar has it. -/
def wrappedTest : Source where
  chars := configuredTest.chars
  root := .rule "source_file" 0 22 [
    .rule "call_expression" 0 22 [
      .rule "call_expression" 0 18 [
        .rule "navigation_expression" 0 16 [
          .rule "call_expression" 0 9 [
            .identifier 0 4,
            .rule "call_suffix" 4 9 [.literalArgument 4 9]],
          .rule "navigation_suffix" 9 16 [.fixed "." 9, .identifier 10 16]],
        .rule "call_suffix" 16 18 [
          .rule "value_arguments" 16 18 [.fixed "(" 16, .fixed ")" 17]]],
      .rule "call_suffix" 19 22 [
        .rule "annotated_lambda" 19 22 [
          .rule "lambda_literal" 19 22 [.fixed "\x7b" 19, .fixed "\x7d" 21]]]]]

theorem wrapped_test_recognized : configuredTest.IsWrapping wrappedTest isWrapper ∧
    ∃ p ∈ wrappedTest.rootPlace.preorder, isWrapper p = false ∧
      (Style.funStyle.test? configuredTest (p.without isWrapper)).isSome = true ∧
      Style.funStyle.test? wrappedTest p =
        Style.funStyle.test? configuredTest (p.without isWrapper) := by
  have hwrapping : configuredTest.IsWrapping wrappedTest isWrapper :=
    ⟨fun _ _ => id, by rfl⟩
  have hfound : ∃ p ∈ wrappedTest.rootPlace.preorder, isWrapper p = false ∧
      (Style.funStyle.test? configuredTest (p.without isWrapper)).isSome = true := by
    decide +kernel
  obtain ⟨p, hp, hkept, hsome⟩ := hfound
  have hsame := (Style.funStyle.test?_wrapped configuredTest wrappedTest isWrapper hwrapping).2
  exact ⟨hwrapping, p, hp, hkept, hsome, (hsame p hp hkept).2.1⟩

end SpecLens
