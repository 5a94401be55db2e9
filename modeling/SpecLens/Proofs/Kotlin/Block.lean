import SpecLens.Proofs.Kotlin.Token
import SpecLens.Proofs.Tree.Nesting

/-!
# Calls with a block

Tests and containers are declared by calls with a trailing lambda. This file says which readings of
a call ask for one, which of the calls in a chain may have one, and that the brace of the lambda and
the dot before the called member lead back to the call.
-/

namespace SpecLens.Kotlin

open Place

/-- A call with a trailing lambda, of something other than a call. -/
def HasBlock (p : Place) : Prop :=
  ∃ c l, call? p = some c ∧ c.lambda = some l ∧ isCall c.callee = false

/-- The brace that opens the trailing lambda of a call. -/
def openingBrace? (p : Place) : Option Place :=
  (call? p).bind fun c => c.lambda.bind fun l => l.children.head?.filter (isToken "\x7b")

/-- The dots of the member access that a call calls. -/
def separators (p : Place) : List Place :=
  match call? p with
  | some c => (navigationTokens c.callee).filter (isToken ".")
  | none => []

variable {src : Source} {p : Place} {l : Literal} {names : List String} {member : String}

lemma isIdentifier_of_identifierName? {name : String} (h : identifierName? src p = some name) :
    isIdentifier p = true := by
  unfold identifierName? at h
  split at h
  · assumption
  · cases h

lemma not_isCall_of_identifierName? {name : String} (h : identifierName? src p = some name) :
    isCall p = false := by
  have hkind := isIdentifier_of_identifierName? h
  simp only [isIdentifier] at hkind
  simp only [isCall]
  generalize p.kind = kind at hkind ⊢
  simp only [identifierKinds, List.contains_eq_mem, List.mem_cons, List.not_mem_nil, or_false,
    decide_eq_true_eq] at hkind
  rcases hkind with rfl | rfl | rfl <;> decide

lemma not_isCall_of_literal? (h : literal? src p = some l) : isCall p = false := by
  unfold literal? at h
  split at h
  · rename_i hliteral
    by_contra hcall
    have hkind : p.kind = "call_expression" := by simpa [isCall] using hcall
    simp only [isStringLiteral, hkind] at hliteral
    revert hliteral
    cases p.named <;> decide
  · simp at h

lemma not_isCall_of_navigation? {n : Navigation} (h : navigation? p = some n) :
    isCall p = false := by
  simp only [isCall, (navigation?_eq_some h).1]
  decide

/-- A dot expression that invokes a member is a call of it with a trailing lambda. -/
lemma exists_of_invokes {d : DotExpression} (h : dotExpression? p = some d)
    (hd : d.invokes src member = true) : ∃ c n block, call? p = some c ∧
      navigation? c.callee = some n ∧ c.lambda = some block ∧
      identifierName? src n.member = some member ∧ d = ⟨p, n.receiver, n.member, some c⟩ := by
  simp only [DotExpression.invokes, Bool.and_eq_true, beq_iff_eq] at hd
  obtain ⟨hname, hsome⟩ := hd
  obtain ⟨block, hblock⟩ := Option.isSome_iff_exists.mp hsome
  unfold dotExpression? at h
  split at h
  · obtain ⟨c, hcall, hd⟩ := Option.bind_eq_some_iff.mp h
    obtain ⟨n, hnav, rfl⟩ := Option.map_eq_some_iff.mp hd
    exact ⟨c, n, block, hcall, hnav, hblock, hname, rfl⟩
  · obtain ⟨n, -, rfl⟩ := Option.map_eq_some_iff.mp h
    cases hblock

lemma HasBlock.of_invokes {d : DotExpression} (h : dotExpression? p = some d)
    (hd : d.invokes src member = true) : HasBlock p := by
  obtain ⟨c, n, block, hcall, hnav, hlambda, -, -⟩ := exists_of_invokes h hd
  exact ⟨c, block, hcall, hlambda, not_isCall_of_navigation? hnav⟩

lemma HasBlock.of_literalOfCall? (h : literalOfCall? src names p = some l) : HasBlock p := by
  obtain ⟨c, hcall, h⟩ := Option.bind_eq_some_iff.mp h
  obtain ⟨name, hname, h⟩ := Option.bind_eq_some_iff.mp h
  split at h
  · rename_i hblock
    simp only [Bool.and_eq_true] at hblock
    obtain ⟨block, hlambda⟩ := Option.isSome_iff_exists.mp hblock.2
    exact ⟨c, block, hcall, hlambda, not_isCall_of_identifierName? hname⟩
  · simp at h

lemma HasBlock.of_literalOfInvoke? (h : literalOfInvoke? src p = some l) : HasBlock p := by
  obtain ⟨c, hcall, h⟩ := Option.bind_eq_some_iff.mp h
  split at h
  · rename_i hblock
    simp only [Bool.and_eq_true] at hblock
    obtain ⟨block, hlambda⟩ := Option.isSome_iff_exists.mp hblock.1
    exact ⟨c, block, hcall, hlambda, not_isCall_of_literal? h⟩
  · simp at h

lemma HasBlock.of_literalOfChain? (h : literalOfChain? src names member p = some l) :
    HasBlock p := by
  obtain ⟨d, hd, h⟩ := Option.bind_eq_some_iff.mp h
  split at h
  · rename_i hinvokes
    exact .of_invokes hd hinvokes
  · simp at h

lemma HasBlock.of_literalOfReceiver? (h : literalOfReceiver? src member p = some l) :
    HasBlock p := by
  obtain ⟨d, hd, h⟩ := Option.bind_eq_some_iff.mp h
  split at h
  · rename_i hinvokes
    exact .of_invokes hd hinvokes
  · simp at h

/-- A call that has no lambda as the tree has it is no call with a block. -/
lemma not_hasBlock_of_directCall? {c : Call} (h : directCall? p = some c)
    (hnone : c.lambda = none) : ¬HasBlock p := by
  rintro ⟨c', l', hc', hl', -⟩
  obtain ⟨outer, hdirect, hlambda, -⟩ := call?_eq_some hc'
  cases h.symm.trans hdirect
  rw [hlambda, hnone] at hl'
  simp at hl'

/-- Where a call with a block calls a call, that one has no block, and it calls no call. -/
lemma HasBlock.callee {n m : Place} (h : HasBlock n) (hm : m ∈ n.namedChildren.head?)
    (hcall : isCall m = true) : ¬HasBlock m ∧ ∀ k ∈ m.namedChildren.head?, isCall k = false := by
  obtain ⟨c, l, hc, hl, hcallee⟩ := h
  obtain ⟨outer, hdirect, hlambda, hcases⟩ := call?_eq_some hc
  obtain ⟨-, -, rest, hchildren, -⟩ := directCall?_eq_some hdirect
  have hmo : outer.callee = m := by simpa [hchildren] using hm
  rcases hcases with heq | ⟨inner, hinner, hnone, heq⟩
  · rw [heq, hmo, hcall] at hcallee
    simp at hcallee
  · rw [hmo] at hinner
    obtain ⟨-, -, rest', hchildren', -⟩ := directCall?_eq_some hinner
    refine ⟨not_hasBlock_of_directCall? hinner hnone, fun k hk => ?_⟩
    have hk : inner.callee = k := by simpa [hchildren'] using hk
    rw [← hk, ← heq]
    exact hcallee

/-- A chain of calls that ends in a call with a block has two calls at most, and the first of two
has no block. -/
lemma HasBlock.chain {n : Node} {p : Place} (hp : Below (root n) p) (hcall : isCall p = true)
    (h : HasBlock (outermostCall p)) :
    outermostCall p = p ∨ p.parent = some (outermostCall p) ∧
      p ∈ (outermostCall p).namedChildren.head? ∧ ¬HasBlock p := by
  -- A call stands above the one it calls, so the way to the end of the chain gets shorter.
  induction hlength : p.above.length using Nat.strongRecOn generalizing p with
  | ind length ih =>
    cases hparent : p.parent with
    | none => exact .inl (outermostCall_eq_self (by simp [hparent]))
    | some q =>
      by_cases hcallee : isCalleeOf p q = true
      · right
        obtain ⟨hq, hhead⟩ := head?_of_isCalleeOf hp hparent hcallee
        rw [outermostCall_of_isCalleeOf hparent hcallee] at h ⊢
        obtain ⟨hqroot, hchild⟩ := mem_children_of_parent hp hparent
        have hlt : q.above.length < length := by
          obtain ⟨_, _, _, rfl⟩ := mem_children.mp hchild
          simp only [down, List.length_cons] at hlength
          omega
        rcases ih _ hlt hqroot hq h rfl with heq | ⟨-, hinner, -⟩
        · rw [heq] at h ⊢
          exact ⟨rfl, hhead, (h.callee hhead hcall).1⟩
        · have := (h.callee hinner hq).2 p hhead
          simp [hcall] at this
      · left
        apply outermostCall_eq_self
        intro q' hq'
        cases hparent.symm.trans hq'
        simpa using hcallee

/-- The brace of a block leads to its call. -/
theorem HasBlock.openingBrace? {n : Place} (hsrc : src.BracedLambdas) (hn : src.Has n)
    (h : HasBlock n) : ∃ b, openingBrace? n = some b ∧ callOfBrace? b = some n ∧
      isToken "\x7b" b = true ∧ Inside n b := by
  obtain ⟨c, l, hc, hl, -⟩ := h
  have hreach := reach_lambda hc hl
  obtain ⟨b, hb, htoken, hstart⟩ :=
    hsrc l (mem_preorder.mpr (hn.trans hreach.toBelow)) (lambda_of_call? hc hl).1
  have hchild : b ∈ l.children := List.mem_of_mem_head? hb
  refine ⟨b, ?_, callOfBrace?_of_lambda hc hl hchild htoken hstart, htoken,
    hreach.child hchild ?_⟩
  · simp [Kotlin.openingBrace?, hc, hl, Option.mem_def.mp hb, htoken]
  · simp only [isToken, Bool.and_eq_true, beq_iff_eq] at htoken
    simp only [isDeclaration, show b.node.kind = _ from htoken.2]
    decide

lemma callOfBrace?_of_dot {dot : Place} (h : isToken "." dot = true) :
    callOfBrace? dot = none := by
  simp only [isToken, Bool.and_eq_true, beq_iff_eq] at h
  simp [callOfBrace?, isToken, h.2, guard]

/-- The dots of a call with a block that is not called itself lead to it. -/
theorem HasBlock.separators {n : Place} (h : HasBlock n) (hdot : (dotExpression? n).isSome)
    (houter : ∀ q, n.parent = some q → isCalleeOf n q = false) :
    separators n ≠ [] ∧ ∀ dot ∈ separators n,
      callOfBrace? dot = none ∧ expressionOfDot? dot = some n := by
  obtain ⟨c, -, hc, -, -⟩ := h
  have hcall := isCall_of_call? hc
  obtain ⟨nav, hnav⟩ : ∃ nav, navigation? c.callee = some nav := by
    simpa [dotExpression?, hcall, hc, Option.isSome_iff_exists] using hdot
  have hseparators : Kotlin.separators n = (navigationTokens c.callee).filter (isToken ".") := by
    simp [Kotlin.separators, hc]
  rw [hseparators]
  constructor
  · obtain ⟨dot, hmem, htoken⟩ := (navigation?_eq_some hnav).2
    exact List.ne_nil_of_mem (List.mem_filter.mpr ⟨hmem, htoken⟩)
  · intro dot hmem
    obtain ⟨hmem, htoken⟩ := List.mem_filter.mp hmem
    refine ⟨callOfBrace?_of_dot htoken, ?_⟩
    rcases callee_of_call? hc with hhead | ⟨inner, hinner, hinnerCall, hhead⟩
    · rw [expressionOfDot?_of_callee hcall hhead hnav hmem htoken, outermostCall_eq_self houter]
    · have hparent := parent_of_mem_children
        (mem_children_of_mem_namedChildren (List.mem_of_mem_head? hinner))
      rw [expressionOfDot?_of_callee hinnerCall hhead hnav hmem htoken,
        outermostCall_of_isCalleeOf hparent (isCalleeOf_of_head? hcall hinner),
        outermostCall_eq_self houter]

end SpecLens.Kotlin
