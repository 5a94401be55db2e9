import SpecLens.Proofs.Spec.Opening

/-!
# Where tests start

No two recognized nodes start at the same byte. Of two nodes around one byte one stands below the
other, and where a recognized node starts, the nodes below it are the calls it calls, names and
literals, none of which is recognized.
-/

namespace SpecLens

open Kotlin Place

/-- A quote, which opens a string literal. -/
def Kotlin.isQuote (p : Place) : Bool := isToken "\"" p || isToken "\"\"\"" p

/-- What a parser without repairs promises of the tokens: fixed ones have a text, names hold
nothing, and a string literal starts with its own quote. -/
structure Source.PlainTokens (src : Source) : Prop where
  filled : ∀ p ∈ src.rootPlace.preorder, p.named = false → p.start < p.stop
  names : ∀ p ∈ src.rootPlace.preorder, isIdentifier p = true → p.node.children = []
  quoted : ∀ p ∈ src.rootPlace.preorder, isStringLiteral p = true →
    ∃ quote ∈ p.children.head?, isQuote quote = true ∧ quote.start = p.start

namespace Kotlin

variable {src : Source} {p q : Place}

lemma isInner_of_not_mem (h : p.kind ∉ "call_expression" :: declarationKinds) :
    isInner p = true := by
  rw [List.mem_cons, not_or] at h
  have hkind : p.node.kind = p.kind := rfl
  simp [isInner, isCall, isDeclaration, hkind, h.1, h.2]

lemma isInner_of_isIdentifier (h : isIdentifier p = true) : isInner p = true := by
  apply isInner_of_not_mem
  rw [isIdentifier, List.contains_iff_mem] at h
  generalize p.kind = kind at h ⊢
  revert kind
  decide

lemma isInner_of_isStringLiteral (h : isStringLiteral p = true) : isInner p = true := by
  apply isInner_of_not_mem
  rw [isStringLiteral, Bool.and_eq_true] at h
  intro hmem
  have hsuffix := h.2
  generalize p.kind = kind at hmem hsuffix
  revert kind
  decide

lemma named_of_isQuote (h : isQuote p = true) : p.named = false := by
  simp only [isQuote, isToken, Bool.or_eq_true, Bool.and_eq_true, Bool.not_eq_true'] at h
  exact h.elim And.left And.left

lemma isInner_of_isQuote (h : isQuote p = true) : isInner p = true := by
  apply isInner_of_not_mem
  have hkind : p.kind ∈ ["\"", "\"\"\""] := by
    simp only [isQuote, isToken, Bool.or_eq_true, Bool.and_eq_true, beq_iff_eq] at h
    simpa using h.imp And.right And.right
  generalize p.kind = kind at hkind ⊢
  revert kind
  decide

end Kotlin

namespace Source.PlainTokens

variable {src : Source} {p q : Place}

/-- What stands in a literal is its quote or starts behind it. -/
lemma isInner_or_late (htokens : src.PlainTokens) (h : src.WellNested) (hp : src.Has p)
    (hliteral : isStringLiteral p = true) (hq : Below p q) :
    p.start < p.stop ∧ (isInner q = true ∨ p.start < q.start) := by
  obtain ⟨quote, hhead, hquote, hstart⟩ := htokens.quoted p (mem_preorder.mpr hp) hliteral
  obtain ⟨rest, hchildren⟩ := List.head?_eq_some_iff.mp hhead
  have hmem : quote ∈ p.children := by simp [hchildren]
  have hhas := hp.child hmem rfl
  have hnamed := named_of_isQuote hquote
  have hfilled := htokens.filled quote (mem_preorder.mpr hhas) hnamed
  have hinside := h.inside p (mem_preorder.mpr hp) quote hmem
  refine ⟨by omega, ?_⟩
  rcases Reach.iff_child.mp hq with rfl | ⟨c, hc, -, hcq⟩
  · exact .inl (isInner_of_isStringLiteral hliteral)
  rw [hchildren, List.mem_cons] at hc
  rcases hc with rfl | hc
  · have hleaf := h.tokens c (mem_preorder.mpr hhas) (.inl hnamed)
    rw [eq_of_below_token hleaf hcq]
    exact .inl (isInner_of_isQuote hquote)
  · have hordered := h.ordered p (mem_preorder.mpr hp)
    rw [hchildren, List.pairwise_cons] at hordered
    have hbehind := hordered.1 c hc
    have hrange := h.nested.range_le (hp.child (by simp [hchildren, hc]) rfl) hcq
    exact .inr (by omega)

lemma tokenStarts (htokens : src.PlainTokens) (h : src.WellNested) : src.TokenStarts where
  names p hp hname q hq := by
    rw [eq_of_below_token (htokens.names p hp hname) (mem_preorder.mp hq)]
    exact isInner_of_isIdentifier hname
  literals p hp hliteral := by
    have hhas := mem_preorder.mp hp
    refine ⟨(htokens.isInner_or_late h hhas hliteral .refl).1, fun q hq => ?_⟩
    exact (htokens.isInner_or_late h hhas hliteral (mem_preorder.mp hq)).2

end Source.PlainTokens

namespace Style

variable {s : Style} {src : Source} {p q : Place} {t u : Test}

/-- Below a recognized node, no other recognized node starts where it does. -/
lemma eq_of_below_of_start_eq (hs : s.Worded) (h : src.WellNested) (hstarts : src.TokenStarts)
    (hp : src.Has p) (ht : s.test? src p = some t) (hu : s.test? src q = some u)
    (hbelow : Below p q) (hcovers : q.node.covers p.start = true) : q = p := by
  by_contra hne
  exact (opens_of_test? hs h hstarts hp ht).2 q hbelow hne hcovers (.inl (hasBlock_of_test? hu))

/-- Different nodes that a built-in style recognizes start at different bytes and have different
anchors. -/
theorem recognized_starts_differ (hs : s ∈ builtin) (h : src.WellNested)
    (htokens : src.PlainTokens) (hp : src.Has p) (hq : src.Has q) (ht : s.test? src p = some t)
    (hu : s.test? src q = some u) (hne : p ≠ q) :
    p.start ≠ q.start ∧ t.anchor ≠ u.anchor := by
  have hworded := builtin_worded s hs
  have hstarts := htokens.tokenStarts h
  have hstart : p.start ≠ q.start := by
    intro heq
    have hcovers {x : Place} {v : Test} (hx : src.Has x) (hv : s.test? src x = some v) :
        x.node.covers x.start = true :=
      covers_iff.mpr ⟨Nat.le_refl _, (opens_of_test? hworded h hstarts hx hv).1⟩
    have hcp : p.node.covers q.start = true := heq ▸ hcovers hp ht
    have hcq : q.node.covers p.start = true := heq ▸ hcovers hq hu
    rcases h.nested.below_or_below hp hq (hcovers hp ht) hcq with hbelow | hbelow
    · exact hne (eq_of_below_of_start_eq hworded h hstarts hp ht hu hbelow hcq).symm
    · exact hne (eq_of_below_of_start_eq hworded h hstarts hq hu ht hbelow hcp)
  refine ⟨hstart, fun hanchor => hstart ?_⟩
  rw [anchor_of_test? ht, anchor_of_test? hu] at hanchor
  exact congrArg Anchor.startByte hanchor

end Style

lemma nestedSpec_plainTokens : nestedSpec.PlainTokens where
  filled := by decide +kernel
  names := by decide +kernel
  quoted := by decide +kernel

/-- Of a container and a test in it, the one starts before the other. -/
theorem nestedSpec_starts_differ : Style.funStyle ∈ Style.builtin ∧ nestedSpec.WellNested ∧
    nestedSpec.PlainTokens ∧ ∃ p q t u, nestedSpec.Has p ∧ nestedSpec.Has q ∧
      Style.funStyle.test? nestedSpec p = some t ∧ Style.funStyle.test? nestedSpec q = some u ∧
      p ≠ q ∧ p.start ≠ q.start ∧ t.anchor ≠ u.anchor := by
  have hbuiltin : Style.funStyle ∈ Style.builtin := by simp [Style.builtin]
  have hfound : ∃ p ∈ nestedSpec.rootPlace.preorder,
      (Style.funStyle.test? nestedSpec p).isSome = true ∧ ∃ q ∈ p.preorder,
        p.path ≠ q.path ∧ (Style.funStyle.test? nestedSpec q).isSome = true := by
    decide +kernel
  obtain ⟨p, hp, hsome, q, hq, hpath, hsome'⟩ := hfound
  obtain ⟨t, ht⟩ := Option.isSome_iff_exists.mp hsome
  obtain ⟨u, hu⟩ := Option.isSome_iff_exists.mp hsome'
  have hhas := mem_preorder.mp hp
  have hhas' := hhas.trans (mem_preorder.mp hq)
  have hne : p ≠ q := fun heq => hpath (congrArg path heq)
  exact ⟨hbuiltin, nestedSpec_wellNested, nestedSpec_plainTokens, p, q, t, u, hhas, hhas', ht, hu,
    hne, Style.recognized_starts_differ hbuiltin nestedSpec_wellNested nestedSpec_plainTokens hhas
      hhas' ht hu hne⟩

end SpecLens
