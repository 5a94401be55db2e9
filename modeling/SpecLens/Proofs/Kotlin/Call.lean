import SpecLens.Kotlin.Token
import SpecLens.Kotlin.Declaration
import SpecLens.Proofs.Tree.Reach

/-!
# Where the parts of a call stand

The parts of a call are its children or stand in a wrapper below it. This file locates the trailing
lambda and the tokens of a member access below their expression, in the form in which the way back
up reads them.
-/

namespace SpecLens.Kotlin

open Place

/-- Neither a call nor a declaration: what stands between an expression and a token of it. -/
def isInner (p : Place) : Bool := !isCall p && !isDeclaration p.node

lemma isInner_of_kind {p : Place} (h : p.kind ∈ ["\x7b", ".", "lambda_literal", "annotated_lambda",
    "call_suffix", "navigation_suffix", "navigation_expression"]) : isInner p = true := by
  have hkind : p.node.kind = p.kind := rfl
  simp only [isInner, isCall, isDeclaration, hkind]
  generalize p.kind = kind at h ⊢
  revert kind
  decide

lemma not_isDeclaration_of_isCall {p : Place} (h : isCall p = true) :
    isDeclaration p.node = false := by
  have hkind : p.node.kind = "call_expression" := beq_iff_eq.mp h
  simp only [isDeclaration, hkind]
  decide

/-- `q` is `p` or stands below it, and the way to it enters no declaration. -/
abbrev Inside : Place → Place → Prop := Reach fun n => !isDeclaration n

/-- `c` is a child of `p`, or of a child of `p` that has the kind of a wrapper. -/
def Within (wrapper : String) (p c : Place) : Prop :=
  c ∈ p.children ∨ ∃ x ∈ p.children, x.kind = wrapper ∧ c ∈ x.children

lemma Within.above {wrapper : String} {p c : Place} (h : Within wrapper p c)
    (hp : p.kind ≠ wrapper) : ∃ q, c.parent = some q ∧ above? wrapper q = some p := by
  rcases h with hc | ⟨x, hx, hkind, hc⟩
  · exact ⟨p, parent_of_mem_children hc, by simp [above?, hp]⟩
  · exact ⟨x, parent_of_mem_children hc, by simp [above?, hkind, parent_of_mem_children hx]⟩

lemma Within.reach {wrapper : String} {p c : Place} (h : Within wrapper p c)
    {keep : Node → Bool} (hw : ∀ n : Node, n.kind = wrapper → keep n = true)
    (hc : keep c.node = true) : Reach keep p c := by
  rcases h with hchild | ⟨x, hx, hkind, hchild⟩
  · exact Reach.refl.child hchild hc
  · exact (Reach.refl.child hx (hw _ hkind)).child hchild hc

lemma mem_children_of_mem_namedChildren {p c : Place} (h : c ∈ p.namedChildren) : c ∈ p.children :=
  (List.mem_filter.mp h).1

lemma directCall?_eq_some {p : Place} {c : Call} (h : directCall? p = some c) :
    isCall p = true ∧ c.call = p ∧ ∃ rest, p.namedChildren = c.callee :: rest ∧
      c.lambda = lastLambda (callTail rest) := by
  unfold directCall? at h
  split at h
  · simp at h
  · rename_i hcall
    split at h
    · simp at h
    · rename_i callee rest hchildren
      split at h
      · simp at h
      · cases Option.some.inj h
        exact ⟨by simpa using hcall, rfl, rest, hchildren, rfl⟩

/-- The parts of a call are those the tree has, or the callee is itself a call without a lambda
whose callee and arguments stand for those of the whole. -/
lemma call?_eq_some {p : Place} {c : Call} (h : call? p = some c) :
    ∃ outer, directCall? p = some outer ∧ c.lambda = outer.lambda ∧
      (c.callee = outer.callee ∨
        ∃ inner, directCall? outer.callee = some inner ∧ inner.lambda = none ∧
          c.callee = inner.callee) := by
  obtain ⟨outer, hdirect, rfl⟩ := Option.map_eq_some_iff.mp h
  refine ⟨outer, hdirect, ?_⟩
  split
  · split
    · rename_i inner hinner
      split
      · rename_i hnone
        exact ⟨rfl, .inr ⟨inner, hinner, Option.isNone_iff_eq_none.mp hnone, rfl⟩⟩
      · exact ⟨rfl, .inl rfl⟩
    · exact ⟨rfl, .inl rfl⟩
  · exact ⟨rfl, .inl rfl⟩

lemma isCall_of_call? {p : Place} {c : Call} (h : call? p = some c) : isCall p = true := by
  obtain ⟨outer, hdirect, -⟩ := call?_eq_some h
  exact (directCall?_eq_some hdirect).1

lemma within_of_mem_callTail {p callee part : Place} {rest : List Place}
    (hchildren : p.namedChildren = callee :: rest) (h : part ∈ callTail rest) :
    Within "call_suffix" p part := by
  obtain ⟨x, hx, hpart⟩ := List.mem_flatMap.mp h
  have hxp : x ∈ p.children :=
    mem_children_of_mem_namedChildren (hchildren ▸ List.mem_cons_of_mem _ hx)
  split at hpart
  · rename_i hkind
    exact .inr ⟨x, hxp, beq_iff_eq.mp hkind, mem_children_of_mem_namedChildren hpart⟩
  · rw [List.mem_singleton.mp hpart]
    exact .inl hxp

/-- The trailing lambda is a part of its call, or the lambda below an annotated part. -/
lemma lambda_of_call? {p l : Place} {c : Call} (h : call? p = some c) (hl : c.lambda = some l) :
    l.kind = "lambda_literal" ∧ ∃ part, Within "call_suffix" p part ∧
      (part = l ∨ part.kind = "annotated_lambda" ∧ l ∈ part.children) := by
  obtain ⟨outer, hdirect, hlambda, -⟩ := call?_eq_some h
  obtain ⟨-, -, rest, hchildren, houter⟩ := directCall?_eq_some hdirect
  rw [hlambda, houter] at hl
  obtain ⟨part, hlast, hin⟩ := Option.bind_eq_some_iff.mp hl
  obtain ⟨hmem, hkinds⟩ := List.mem_filter.mp (List.mem_of_getLast? hlast)
  unfold lambdaIn at hin
  split at hin
  · rename_i hannotated
    have hkind := List.find?_some hin
    exact ⟨beq_iff_eq.mp hkind, part, within_of_mem_callTail hchildren hmem,
      .inr ⟨beq_iff_eq.mp hannotated,
        mem_children_of_mem_namedChildren (List.mem_of_find?_eq_some hin)⟩⟩
  · rename_i hannotated
    have heq : part = l := Option.some.inj hin
    have hkind : part.kind = "lambda_literal" := by simpa [hannotated] using hkinds
    exact ⟨heq ▸ hkind, part, within_of_mem_callTail hchildren hmem, .inl heq⟩

/-- The way from a call down to its trailing lambda enters nothing but wrappers. -/
lemma reach_lambda {p l : Place} {c : Call} (h : call? p = some c) (hl : c.lambda = some l) :
    Inside p l := by
  have hplain {n : Node} (hn : n.kind ∈ ["lambda_literal", "annotated_lambda", "call_suffix"]) :
      (!isDeclaration n) = true := by
    simp only [isDeclaration]
    generalize n.kind = kind at hn
    revert kind
    decide
  have hreach {x : Place} (hx : Within "call_suffix" p x) (hkeep : (!isDeclaration x.node) = true) :
      Inside p x := by
    apply hx.reach _ hkeep
    intro n hn
    exact hplain (by simp [hn])
  obtain ⟨hkind, part, hpart, hcases⟩ := lambda_of_call? h hl
  have hlambda : (!isDeclaration l.node) = true := hplain (by simp [show l.node.kind = _ from hkind])
  rcases hcases with rfl | ⟨hannotated, hchild⟩
  · exact hreach hpart hlambda
  · have hwrapper : (!isDeclaration part.node) = true :=
      hplain (by simp [show part.node.kind = _ from hannotated])
    exact (hreach hpart hwrapper).child hchild hlambda

/-- What a call calls is a child of it, or of the call without lambda that it calls. -/
lemma callee_of_call? {p : Place} {c : Call} (h : call? p = some c) :
    c.callee ∈ p.namedChildren.head? ∨
      ∃ inner ∈ p.namedChildren.head?, isCall inner = true ∧
        c.callee ∈ inner.namedChildren.head? := by
  obtain ⟨outer, hdirect, -, hcallee⟩ := call?_eq_some h
  obtain ⟨-, -, rest, hchildren, -⟩ := directCall?_eq_some hdirect
  rcases hcallee with heq | ⟨inner, hinner, -, heq⟩
  · exact .inl (by simp [hchildren, heq])
  · obtain ⟨hcall, -, rest', hchildren', -⟩ := directCall?_eq_some hinner
    exact .inr ⟨outer.callee, by simp [hchildren], hcall, by simp [hchildren', heq]⟩

lemma children_ne_nil_of_call? {p : Place} {c : Call} (h : call? p = some c) :
    p.node.children ≠ [] := by
  have hcallee : ∃ x, x ∈ p.children := by
    rcases callee_of_call? h with hhead | ⟨inner, hinner, -⟩
    · exact ⟨_, mem_children_of_mem_namedChildren (List.mem_of_mem_head? hhead)⟩
    · exact ⟨_, mem_children_of_mem_namedChildren (List.mem_of_mem_head? hinner)⟩
  obtain ⟨x, hx⟩ := hcallee
  obtain ⟨index, child, hchild, -⟩ := mem_children.mp hx
  exact List.ne_nil_of_mem (List.mem_of_getElem? hchild)

lemma navigation?_eq_some {p : Place} {n : Navigation} (h : navigation? p = some n) :
    p.kind = "navigation_expression" ∧ ∃ dot ∈ navigationTokens p, isToken "." dot = true := by
  unfold navigation? at h
  split at h
  · simp at h
  · rename_i hkind
    refine ⟨by simpa using hkind, ?_⟩
    dsimp only at h
    split at h
    · split at h
      · simp at h
      · split at h
        · rename_i hany
          exact List.any_eq_true.mp hany
        · simp at h
    · simp at h

lemma within_of_mem_navigationTokens {p t : Place} (h : t ∈ navigationTokens p) :
    Within "navigation_suffix" p t := by
  obtain ⟨x, hx, ht⟩ := List.mem_flatMap.mp h
  split at ht
  · rename_i hkind
    exact .inr ⟨x, hx, beq_iff_eq.mp hkind, ht⟩
  · rw [List.mem_singleton.mp ht]
    exact .inl hx

lemma below_of_mem_navigationTokens {p t : Place} (h : t ∈ navigationTokens p) : Below p t :=
  (within_of_mem_navigationTokens h).reach (fun _ _ => rfl) rfl

end SpecLens.Kotlin
