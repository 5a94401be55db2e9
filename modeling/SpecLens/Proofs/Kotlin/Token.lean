import Mathlib.Data.Option.Basic
import SpecLens.Proofs.Kotlin.Call

/-!
# From tokens up, and back

The way up from the brace of a trailing lambda ends at the call that has this lambda, and the way up
from the dot of a member access at the outermost call of the member. What lies between a token and
the expression it leads to is neither a call nor a declaration, other than a chain of calls that
starts at the member.
-/

namespace SpecLens

open Place

/-- What the grammar promises of lambdas: each opens with its brace. -/
def Source.BracedLambdas (src : Source) : Prop :=
  ∀ p ∈ src.rootPlace.preorder, p.kind = "lambda_literal" →
    ∃ b ∈ p.children.head?, Kotlin.isToken "\x7b" b = true ∧ b.start = p.start

namespace Kotlin

lemma above?_eq_some {wrapper : String} {q p : Place} (h : above? wrapper q = some p) :
    ∃ between, q.selfAndAncestors = between ++ p.selfAndAncestors ∧
      ∀ x ∈ between, x.kind = wrapper := by
  unfold above? at h
  split at h
  · rename_i hkind
    refine ⟨[q], ?_, by simpa using hkind⟩
    rw [selfAndAncestors, ancestors_of_parent h, List.singleton_append]
  · cases Option.some.inj h
    exact ⟨[], rfl, by simp⟩

/-- The brace that opens the trailing lambda of a call leads to the call. -/
theorem callOfBrace?_of_lambda {p l b : Place} {c : Call} (h : call? p = some c)
    (hl : c.lambda = some l) (hb : b ∈ l.children) (htoken : isToken "\x7b" b = true)
    (hstart : b.start = l.start) : callOfBrace? b = some p := by
  have hcall : p.kind = "call_expression" := beq_iff_eq.mp (isCall_of_call? h)
  obtain ⟨hkind, part, hpart, hlp⟩ := lambda_of_call? h hl
  obtain ⟨q, hparent, hq⟩ := hpart.above (by simp [hcall])
  have howner : ∃ owner, l.parent = some owner ∧
      (above? "annotated_lambda" owner).bind (above? "call_suffix") = some p := by
    rcases hlp with rfl | ⟨hannotated, hchild⟩
    · have hwrapper : q.kind ≠ "annotated_lambda" := by
        rcases hpart with hc | ⟨x, hx, hxkind, hc⟩
        · have hqp := hparent.symm.trans (parent_of_mem_children hc)
          cases hqp
          simp [hcall]
        · have hqx := hparent.symm.trans (parent_of_mem_children hc)
          cases hqx
          simp [hxkind]
      exact ⟨q, hparent, by simpa [above?, hwrapper] using hq⟩
    · exact ⟨part, parent_of_mem_children hchild, by simpa [above?, hannotated, hparent] using hq⟩
  obtain ⟨owner, howner, habove⟩ := howner
  obtain ⟨inner, hinner, houter⟩ := Option.bind_eq_some_iff.mp habove
  have hsame : (c.lambda.map (·.same l)).getD false = true := by simp [hl, same]
  simp [callOfBrace?, htoken, parent_of_mem_children hb, hkind, hstart, howner, hinner, houter, h, hsame]

/-- What lies between a brace and the call it leads to. -/
lemma callOfBrace?_eq_some {b p : Place} (h : callOfBrace? b = some p) :
    isInner b = true ∧ ∃ between, b.ancestors = between ++ p.selfAndAncestors ∧
      ∀ x ∈ between, isInner x = true := by
  simp only [callOfBrace?, bind, Option.bind_eq_some_iff, Option.guard_eq_some', exists_const] at h
  obtain ⟨htoken, l, hl, hkind, owner, howner, owner', howner', q, hq, c, -, -, hp⟩ := h
  cases hp
  obtain ⟨annotated, hannotated, hannotatedKind⟩ := above?_eq_some howner'
  obtain ⟨suffix, hsuffix, hsuffixKind⟩ := above?_eq_some hq
  simp only [isToken, Bool.and_eq_true, beq_iff_eq] at htoken
  simp only [Bool.and_eq_true, beq_iff_eq] at hkind
  refine ⟨isInner_of_kind (by simp [htoken.2]), l :: annotated ++ suffix, ?_,
    fun x hx => isInner_of_kind ?_⟩
  · rw [ancestors_of_parent hl, selfAndAncestors, ancestors_of_parent howner, hannotated, hsuffix]
    simp
  · simp only [List.cons_append, List.mem_cons, List.mem_append] at hx
    rcases hx with rfl | hx | hx
    · simp [hkind.1]
    · simp [hannotatedKind x hx]
    · simp [hsuffixKind x hx]

lemma isCalleeOf_of_head? {p q : Place} (hq : isCall q = true) (h : p ∈ q.namedChildren.head?) :
    isCalleeOf p q = true := by
  simp [isCalleeOf, hq, Option.mem_def.mp h, same]

lemma mem_head?_of_isCalleeOf {r p q : Place} (hp : Below r p) (hq : Below r q)
    (h : isCalleeOf p q = true) : isCall q = true ∧ p ∈ q.namedChildren.head? := by
  simp only [isCalleeOf, Bool.and_eq_true] at h
  refine ⟨h.1, ?_⟩
  cases hhead : q.namedChildren.head? with
  | none => simp [hhead] at h
  | some x =>
    have hsame : x.same p = true := by simpa [hhead] using h.2
    have hx := hq.child (mem_children_of_mem_namedChildren (List.mem_of_mem_head? hhead)) rfl
    rw [(same_iff hx hp).mp hsame]
    exact rfl

lemma head?_of_isCalleeOf {n : Node} {p q : Place} (hp : Below (root n) p)
    (hparent : p.parent = some q) (h : isCalleeOf p q = true) :
    isCall q = true ∧ p ∈ q.namedChildren.head? :=
  mem_head?_of_isCalleeOf hp (mem_children_of_parent hp hparent).1 h

lemma outermostCall_eq_self {p : Place} (h : ∀ q, p.parent = some q → isCalleeOf p q = false) :
    outermostCall p = p := by
  obtain ⟨node, above⟩ := p
  cases above with
  | nil => rfl
  | cons step above => exact if_neg (by simp [h _ rfl])

lemma outermostCall_of_isCalleeOf {p q : Place} (hparent : p.parent = some q)
    (h : isCalleeOf p q = true) : outermostCall p = outermostCall q := by
  rw [outermostCall, ancestors_of_parent hparent, selfAndAncestors, outermostCallFrom, if_pos h]
  rfl

/-- The dot of a member access that is called leads to the outermost of the calls around it. -/
theorem expressionOfDot?_of_callee {p nav dot : Place} {n : Navigation} (hp : isCall p = true)
    (h : nav ∈ p.namedChildren.head?) (hnav : navigation? nav = some n)
    (hdot : dot ∈ navigationTokens nav) (htoken : isToken "." dot = true) :
    expressionOfDot? dot = some (outermostCall p) := by
  have hkind := (navigation?_eq_some hnav).1
  obtain ⟨q, hq, habove⟩ := (within_of_mem_navigationTokens hdot).above (by simp [hkind])
  have hparent := parent_of_mem_children (mem_children_of_mem_namedChildren (List.mem_of_mem_head? h))
  simp [expressionOfDot?, htoken, hq, habove, hnav, hparent, isCalleeOf_of_head? hp h]

/-- What lies between a dot and the expression it leads to. -/
lemma expressionOfDot?_eq_some {dot p : Place} (h : expressionOfDot? dot = some p) :
    isInner dot = true ∧ ∃ nav between, dot.ancestors = between ++ nav.selfAndAncestors ∧
      (∀ x ∈ between, isInner x = true) ∧ isInner nav = true ∧
      (p = nav ∨
        ∃ q, nav.parent = some q ∧ isCalleeOf nav q = true ∧ p = outermostCall q) := by
  simp only [expressionOfDot?, bind, Option.bind_eq_some_iff, Option.guard_eq_some', exists_const] at h
  obtain ⟨htoken, parent, hparent, nav, hnav, hsome, hp⟩ := h
  obtain ⟨n, hn⟩ := Option.isSome_iff_exists.mp hsome
  obtain ⟨suffix, hsuffix, hsuffixKind⟩ := above?_eq_some hnav
  simp only [isToken, Bool.and_eq_true, beq_iff_eq] at htoken
  refine ⟨isInner_of_kind (by simp [htoken.2]), nav, suffix, ?_,
    fun x hx => isInner_of_kind (by simp [hsuffixKind x hx]),
    isInner_of_kind (by simp [(navigation?_eq_some hn).1]), ?_⟩
  · rw [ancestors_of_parent hparent, hsuffix]
  · split at hp
    · rename_i q hq
      by_cases hcallee : isCalleeOf nav q = true
      · rw [if_pos hcallee] at hp
        exact .inr ⟨q, hq, hcallee, (Option.some.inj hp).symm⟩
      · rw [if_neg hcallee] at hp
        exact .inl (Option.some.inj hp).symm
    · exact .inl (Option.some.inj hp).symm

end Kotlin

end SpecLens
