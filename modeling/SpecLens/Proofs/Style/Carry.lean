import Mathlib.Data.List.Basic
import Mathlib.Tactic.Lemma
import SpecLens.Style.Basic

/-!
# Recognition in two trees

What a node declares is read off names, literals, calls and member accesses. Where a map between
two trees carries these from one to the other, a node and its image declare the same.
-/

namespace SpecLens

open Kotlin

namespace Kotlin

/-- The parts of a call in another tree. -/
def Call.map (f : Place → Place) (c : Call) : Call :=
  ⟨f c.call, f c.callee, c.arguments.map f, c.lambda.map f⟩

/-- The parts of a member access in another tree. -/
def Navigation.map (f : Place → Place) (n : Navigation) : Navigation :=
  ⟨f n.receiver, f n.member⟩

/-- A dot expression in another tree. -/
def DotExpression.map (f : Place → Place) (d : DotExpression) : DotExpression :=
  ⟨f d.expression, f d.receiver, f d.member, d.selector.map (Call.map f)⟩

/-- An expression in another tree. -/
def Shape.map (f : Place → Place) : Shape → Shape
  | .call c => .call (c.map f)
  | .stringInvoke c => .stringInvoke (c.map f)
  | .dot d => .dot (d.map f)
  | .other => .other

/-- The parts of a call are among the places given by `kept`. -/
structure Call.Within (kept : Place → Prop) (c : Call) : Prop where
  callee : kept c.callee
  arguments : ∀ d ∈ c.arguments, kept d ∧ d.kind = "value_arguments"
  lambda : ∀ d ∈ c.lambda, kept d

lemma Call.Within.mono {kept kept' : Place → Prop} {c : Call} (h : c.Within kept)
    (hkept : ∀ p, kept p → kept' p) : c.Within kept' :=
  ⟨hkept _ h.callee, fun d hd => (h.arguments d hd).imp_left (hkept d),
    fun d hd => hkept d (h.lambda d hd)⟩

end Kotlin

/-- `f` carries the places given by `kept` into the tree of `other`: names and literals stay as
they are, and the parts of a call or a member access go to the parts of its image. -/
structure Source.Carries (src other : Source) (kept : Place → Prop) (f : Place → Place) : Prop where
  kind : ∀ {p}, kept p → (f p).kind = p.kind
  named : ∀ {p}, kept p → (f p).named = p.named
  name : ∀ {p}, kept p → identifierName? other (f p) = identifierName? src p
  literal : ∀ {p}, kept p → literal? other (f p) = literal? src p
  directCall : ∀ {p}, kept p → directCall? (f p) = (directCall? p).map (Call.map f)
  within : ∀ {p c}, kept p → directCall? p = some c → c.Within kept
  argument : ∀ {p}, kept p → p.kind = "value_arguments" ∨ p.kind = "value_argument" →
    (f p).namedChildren = p.namedChildren.map f ∧ ∀ c ∈ p.namedChildren, kept c
  navigation : ∀ {p}, kept p → navigation? (f p) = (navigation? p).map (Navigation.map f)
  ends : ∀ {p n}, kept p → navigation? p = some n → kept n.receiver ∧ kept n.member

namespace Source.Carries

variable {src other : Source} {kept : Place → Prop} {f : Place → Place} {p d : Place} {c : Call}
  {e : DotExpression}

lemma isCall_eq (h : src.Carries other kept f) (hp : kept p) : isCall (f p) = isCall p := by
  rw [isCall, h.kind hp, isCall]

lemma isIdentifier_eq (h : src.Carries other kept f) (hp : kept p) :
    isIdentifier (f p) = isIdentifier p := by
  rw [isIdentifier, h.kind hp, isIdentifier]

lemma isStringLiteral_eq (h : src.Carries other kept f) (hp : kept p) :
    isStringLiteral (f p) = isStringLiteral p := by
  rw [isStringLiteral, h.kind hp, h.named hp, isStringLiteral]

lemma within_of_call? (h : src.Carries other kept f) (hp : kept p) (hc : call? p = some c) :
    c.Within kept := by
  obtain ⟨outer, hdirect, rfl⟩ := Option.map_eq_some_iff.mp hc
  have houter := h.within hp hdirect
  split
  · split
    · rename_i inner hinner
      split
      · have hparts := h.within houter.callee hinner
        exact ⟨hparts.callee, hparts.arguments, houter.lambda⟩
      · exact houter
    · exact houter
  · exact houter

theorem call?_eq (h : src.Carries other kept f) (hp : kept p) :
    call? (f p) = (call? p).map (Call.map f) := by
  unfold call?
  rw [h.directCall hp]
  cases hdirect : directCall? p with
  | none => rfl
  | some outer =>
    have hinner : directCall? (outer.map f).callee = _ := h.directCall (h.within hp hdirect).callee
    simp only [Option.map_some, hinner]
    cases directCall? outer.callee with
    | none => cases harguments : outer.arguments <;> cases hlambda : outer.lambda <;>
        simp [Call.map, harguments, hlambda]
    | some inner =>
      cases harguments : outer.arguments <;> cases hlambda : outer.lambda <;>
        cases hnone : inner.lambda <;> simp [Call.map, harguments, hlambda, hnone]

lemma mem_argumentList (hd : d ∈ c.argumentList) : ∃ arguments ∈ c.arguments,
    ∃ argument ∈ arguments.namedChildren, argument.kind = "value_argument" ∧
      d ∈ argument.namedChildren := by
  unfold Call.argumentList at hd
  split at hd
  · simp at hd
  · rename_i arguments harguments
    obtain ⟨argument, hargument, hlast⟩ := List.mem_filterMap.mp hd
    obtain ⟨hmem, hkind⟩ := List.mem_filter.mp hargument
    exact ⟨arguments, harguments, argument, hmem, beq_iff_eq.mp hkind, List.mem_of_getLast? hlast⟩

lemma kept_of_mem_argumentList (h : src.Carries other kept f) (hc : c.Within kept)
    (hd : d ∈ c.argumentList) : kept d := by
  obtain ⟨arguments, harguments, argument, hargument, hkind, hd⟩ := mem_argumentList hd
  obtain ⟨harguments, hargumentsKind⟩ := hc.arguments arguments harguments
  have hargument := (h.argument harguments (.inl hargumentsKind)).2 argument hargument
  exact (h.argument hargument (.inr hkind)).2 d hd

lemma argumentList_eq (h : src.Carries other kept f) (hc : c.Within kept) :
    (c.map f).argumentList = c.argumentList.map f := by
  unfold Call.argumentList Call.map
  cases harguments : c.arguments with
  | none => rfl
  | some arguments =>
    obtain ⟨hkept, hkind⟩ := hc.arguments arguments harguments
    obtain ⟨hchildren, hall⟩ := h.argument hkept (.inl hkind)
    have hsame : arguments.namedChildren.filter (fun c => (f c).kind == "value_argument") =
        arguments.namedChildren.filter (·.kind == "value_argument") :=
      List.filter_congr fun argument hargument => by rw [h.kind (hall argument hargument)]
    simp only [Option.map_some]
    rw [hchildren, List.filter_map, List.filterMap_map, List.map_filterMap]
    simp only [Function.comp_def, hsame]
    apply List.filterMap_congr
    intro argument hargument
    obtain ⟨hmem, hargumentKind⟩ := List.mem_filter.mp hargument
    rw [(h.argument (hall argument hmem) (.inr (beq_iff_eq.mp hargumentKind))).1, List.getLast?_map]

lemma onlyLiteral?_eq (h : src.Carries other kept f) (hc : c.Within kept) :
    (c.map f).onlyLiteral? other = c.onlyLiteral? src := by
  unfold Call.onlyLiteral?
  rw [h.argumentList_eq hc]
  match hlist : c.argumentList with
  | [] => rfl
  | [only] => exact h.literal (h.kept_of_mem_argumentList hc (by simp [hlist]))
  | _ :: _ :: _ => rfl

lemma kept_of_dotExpression? (h : src.Carries other kept f) (hp : kept p)
    (he : dotExpression? p = some e) : kept e.receiver ∧ kept e.member := by
  unfold dotExpression? at he
  split at he
  · obtain ⟨c, hcall, he⟩ := Option.bind_eq_some_iff.mp he
    obtain ⟨n, hn, rfl⟩ := Option.map_eq_some_iff.mp he
    exact h.ends (h.within_of_call? hp hcall).callee hn
  · obtain ⟨n, hn, rfl⟩ := Option.map_eq_some_iff.mp he
    exact h.ends hp hn

theorem dotExpression?_eq (h : src.Carries other kept f) (hp : kept p) :
    dotExpression? (f p) = (dotExpression? p).map (DotExpression.map f) := by
  unfold dotExpression?
  rw [h.isCall_eq hp]
  split
  · rw [h.call?_eq hp]
    cases hcall : call? p with
    | none => rfl
    | some c =>
      have hnav : navigation? (c.map f).callee = _ :=
        h.navigation (h.within_of_call? hp hcall).callee
      simp only [Option.map_some, Option.bind_some, hnav, Option.map_map]
      rfl
  · rw [h.navigation hp, Option.map_map, Option.map_map]
    rfl

theorem shape_eq (h : src.Carries other kept f) (hp : kept p) :
    shape (f p) = (shape p).map f := by
  unfold shape
  rw [h.isCall_eq hp, h.call?_eq hp, h.dotExpression?_eq hp]
  split
  · cases hcall : call? p with
    | none => rfl
    | some c =>
      have hcallee := (h.within_of_call? hp hcall).callee
      have hidentifier : isIdentifier (c.map f).callee = isIdentifier c.callee :=
        h.isIdentifier_eq hcallee
      have hliteral : isStringLiteral (c.map f).callee = isStringLiteral c.callee :=
        h.isStringLiteral_eq hcallee
      simp only [Option.map_some, hidentifier, hliteral]
      split
      · rfl
      · split
        · rfl
        · cases dotExpression? p <;> rfl
  · cases dotExpression? p <;> rfl

lemma name_of_call? (h : src.Carries other kept f) (hp : kept p) (hc : call? p = some c) :
    identifierName? other (c.map f).callee = identifierName? src c.callee :=
  h.name (h.within_of_call? hp hc).callee

lemma literalOfCall?_eq (h : src.Carries other kept f) (hp : kept p) (names : List String) :
    literalOfCall? other names (f p) = literalOfCall? src names p := by
  unfold literalOfCall?
  rw [h.call?_eq hp, Option.bind_map]
  apply Option.bind_congr
  intro c hc
  simp only [Function.comp_apply, h.onlyLiteral?_eq (h.within_of_call? hp hc),
    h.name_of_call? hp hc]
  simp [Call.map]

lemma invokes_eq (h : src.Carries other kept f) (hmember : kept e.member) (member : String) :
    (e.map f).invokes other member = e.invokes src member := by
  have hname : identifierName? other (e.map f).member = _ := h.name hmember
  rw [DotExpression.invokes, hname, DotExpression.invokes]
  obtain ⟨expression, receiver, member', _ | selector⟩ := e
  · rfl
  · simp [DotExpression.map, Call.map]

lemma literalOfChain?_eq (h : src.Carries other kept f) (hp : kept p) (names : List String)
    (member : String) :
    literalOfChain? other names member (f p) = literalOfChain? src names member p := by
  unfold literalOfChain?
  rw [h.dotExpression?_eq hp, Option.bind_map]
  apply Option.bind_congr
  intro e he
  obtain ⟨hreceiver, hmember⟩ := h.kept_of_dotExpression? hp he
  have hcall : call? (e.map f).receiver = _ := h.call?_eq hreceiver
  simp only [Function.comp_apply, h.invokes_eq hmember, hcall]
  split
  · cases hc : call? e.receiver with
    | none => rfl
    | some c =>
      have hname : identifierName? other (c.map f).callee = _ := h.name_of_call? hreceiver hc
      have hliteral : (c.map f).onlyLiteral? other = _ :=
        h.onlyLiteral?_eq (h.within_of_call? hreceiver hc)
      rw [Option.map_some, Option.bind_some, Option.bind_some, hname, hliteral]
      simp [Call.map]
  · rfl

lemma literalOfInvoke?_eq (h : src.Carries other kept f) (hp : kept p) :
    literalOfInvoke? other (f p) = literalOfInvoke? src p := by
  unfold literalOfInvoke?
  rw [h.call?_eq hp, Option.bind_map]
  apply Option.bind_congr
  intro c hc
  have hparts := h.within_of_call? hp hc
  simp only [Function.comp_apply, h.argumentList_eq hparts]
  simp [Call.map, h.literal hparts.callee]

lemma literalOfReceiver?_eq (h : src.Carries other kept f) (hp : kept p) (member : String) :
    literalOfReceiver? other member (f p) = literalOfReceiver? src member p := by
  unfold literalOfReceiver?
  rw [h.dotExpression?_eq hp, Option.bind_map]
  apply Option.bind_congr
  intro e he
  obtain ⟨hreceiver, hmember⟩ := h.kept_of_dotExpression? hp he
  simp only [Function.comp_apply, h.invokes_eq hmember]
  simp [DotExpression.map, h.literal hreceiver]

lemma callName?_eq (h : src.Carries other kept f) (hp : kept p) :
    callName? other (f p) = callName? src p := by
  unfold callName?
  rw [h.call?_eq hp, Option.bind_map]
  exact Option.bind_congr fun c hc => h.name_of_call? hp hc

lemma kept_of_shape (h : src.Carries other kept f) (hp : kept p) :
    (∀ c, shape p = .call c → kept c.callee) ∧ ∀ e, shape p = .dot e → kept e.receiver := by
  refine ⟨fun c hc => ?_, fun e he => ?_⟩
  · have hcall : call? p = some c := by
      grind [shape]
    exact (h.within_of_call? hp hcall).callee
  · have hdot : dotExpression? p = some e := by
      grind [shape]
    exact (h.kept_of_dotExpression? hp hdot).1

lemma declaredByCall?_eq (h : src.Carries other kept f) (hp : kept p) (keywords : List Keyword)
    (kind : TestKind) :
    declaredByCall? other keywords kind (f p) = declaredByCall? src keywords kind p := by
  unfold declaredByCall?
  rw [h.shape_eq hp]
  simp only [h.literalOfCall?_eq hp]
  cases hshape : shape p with
  | call c =>
    have hname : identifierName? other (c.map f).callee = _ :=
      h.name ((h.kept_of_shape hp).1 c hshape)
    simp only [Shape.map, hname]
  | stringInvoke _ => rfl
  | dot _ => rfl
  | other => rfl

lemma declaredByChain?_eq (h : src.Carries other kept f) (hp : kept p) (keywords : List Keyword)
    (kind : TestKind) :
    declaredByChain? other keywords kind (f p) = declaredByChain? src keywords kind p := by
  unfold declaredByChain?
  rw [h.shape_eq hp]
  simp only [h.literalOfChain?_eq hp]
  cases hshape : shape p with
  | dot e =>
    have hname : callName? other (e.map f).receiver = _ :=
      h.callName?_eq ((h.kept_of_shape hp).2 e hshape)
    simp only [Shape.map, hname]
  | call _ => rfl
  | stringInvoke _ => rfl
  | other => rfl

lemma declaredByString?_eq (h : src.Carries other kept f) (hp : kept p) :
    declaredByString? other (f p) = declaredByString? src p := by
  simp only [declaredByString?, h.literalOfInvoke?_eq hp, h.literalOfReceiver?_eq hp]

variable {s : Style}

theorem container?_eq (h : src.Carries other kept f) (hp : kept p) :
    s.container? other (f p) = s.container? src p := by
  simp only [Style.container?, h.declaredByCall?_eq hp, h.declaredByChain?_eq hp]

theorem declared?_eq (h : src.Carries other kept f) (hp : kept p) :
    s.declared? other (f p) = s.declared? src p := by
  simp only [Style.declared?, Style.leaf?, h.container?_eq hp, h.declaredByString?_eq hp,
    h.declaredByCall?_eq hp, h.declaredByChain?_eq hp]

end Source.Carries

end SpecLens
