import SpecLens.Proofs.Kotlin.SpareAccess

/-!
# From tokens up without spare nodes

The climb from a token passes over one wrapper at most, and a wrapper is no expression. So a token
leads to the same call or member access without the spare nodes.
-/

namespace SpecLens

open Kotlin Place

/-- A kind of wrappers with the kind of what they stand in. -/
def IsSuffixOf (wrapper kind : String) : Prop :=
  wrapper = "call_suffix" ∧ kind = "call_expression" ∨
    wrapper = "navigation_suffix" ∧ kind = "navigation_expression"

lemma IsSuffixOf.eq_iff {wrapper wrapper' kind kind' : String} (h : IsSuffixOf wrapper kind)
    (h' : IsSuffixOf wrapper' kind') : wrapper = wrapper' ↔ kind = kind' := by
  rcases h with ⟨rfl, rfl⟩ | ⟨rfl, rfl⟩ <;> rcases h' with ⟨rfl, rfl⟩ | ⟨rfl, rfl⟩ <;> decide

lemma IsSuffixOf.ne {wrapper wrapper' kind kind' : String} (h : IsSuffixOf wrapper kind)
    (h' : IsSuffixOf wrapper' kind') : wrapper ≠ kind' := by
  rcases h with ⟨rfl, -⟩ | ⟨rfl, -⟩ <;> rcases h' with ⟨-, rfl⟩ | ⟨-, rfl⟩ <;> decide

namespace Source.Spares

variable {src : Source} {loose : Place → Bool} {p q r w b l : Place} {wrapper kind : String}

/-- Calls and member accesses are kept. -/
lemma keeps_of_kind (h : src.Spares loose) (hp : src.Has p)
    (hkind : p.kind = "call_expression" ∨ p.kind = "navigation_expression") :
    src.Keeps loose p := by
  refine ⟨hp, ?_⟩
  rw [← Bool.not_eq_true]
  intro hloose
  have hspare := h p (mem_preorder.mpr hp) hloose
  have hnode : p.node.kind = p.kind := rfl
  have hcomment : p.node.isComment = false := by
    rcases hkind with hkind | hkind <;> simp only [Node.isComment, hnode, hkind] <;> decide
  rcases hkind with hkind | hkind <;>
    simp [isSpare, isBareComment, isWrapper, isCallWrapper, isMemberWrapper, hcomment, hkind]
      at hspare

lemma keeps_of_isCall (h : src.Spares loose) (hp : src.Has p) (hcall : isCall p = true) :
    src.Keeps loose p := h.keeps_of_kind hp (.inl (beq_iff_eq.mp hcall))

/-- What stands above a kept place: nothing, a kept place, or a loose wrapper in one. -/
lemma parent_cases (h : src.Spares loose) (hp : src.Keeps loose p) :
    (p.parent = none ∧ (p.without loose).parent = none) ∨
    (∃ q, p.parent = some q ∧ src.Keeps loose q ∧
      (p.without loose).parent = some (q.without loose)) ∨
    ∃ w r, p.parent = some w ∧ w.parent = some r ∧ IsSuffixOf w.kind r.kind ∧ p.kind ≠ w.kind ∧
      src.Keeps loose r ∧ (p.without loose).parent = some (r.without loose) := by
  cases hparent : p.parent with
  | none =>
    left
    refine ⟨rfl, ?_⟩
    rw [parent_eq_head?] at hparent ⊢
    simp [ancestors_without, List.head?_eq_none_iff.mp hparent]
  | some q =>
    right
    obtain ⟨hq, hchild⟩ := mem_children_of_parent hp.1 hparent
    cases hloose : loose q with
    | false => exact .inl ⟨q, rfl, ⟨hq, hloose⟩, parent_without_of_kept hparent hloose⟩
    | true =>
      right
      cases hparent' : q.parent with
      | none =>
        have hroot : q = src.rootPlace := by
          cases hq with
          | refl => rfl
          | down _ _ _ => simp at hparent'
        rw [hroot, h.root] at hloose
        cases hloose
      | some r =>
        obtain ⟨hr, hchild'⟩ := mem_children_of_parent hq hparent'
        obtain ⟨index, child, hget, rfl⟩ := mem_children.mp hchild
        have hmem := List.mem_of_getElem? hget
        rcases h.cases hr hchild' hloose with ⟨-, hnone, -⟩ | ⟨hkind, -, hcall, -, hall⟩ |
          ⟨hkind, -, hnav, hall⟩
        · simp [hnone] at hmem
        · have hkept := h.keeps_of_isCall hr hcall
          exact ⟨q, r, rfl, hparent', .inl ⟨hkind, beq_iff_eq.mp hcall⟩, hkind ▸ hall child hmem,
            hkept, parent_without_of_loose hparent hloose hparent' hkept.2⟩
        · have hkept := h.keeps_of_kind hr (.inr hnav)
          exact ⟨q, r, rfl, hparent', .inr ⟨hkind, hnav⟩, hkind ▸ hall child hmem, hkept,
            parent_without_of_loose hparent hloose hparent' hkept.2⟩

lemma above?_without_of_ne (loose : Place → Bool) (hkind : q.kind ≠ wrapper) :
    above? wrapper (q.without loose) = some (q.without loose) ∧ above? wrapper q = some q := by
  simp [above?, hkind]

/-- The climb from a kept place over a wrapper of one kind, to what such wrappers stand in. -/
lemma climb_without (h : src.Spares loose) (hw : IsSuffixOf wrapper kind)
    (hp : src.Keeps loose p) :
    (((p.without loose).parent.bind (above? wrapper)).filter fun q => q.kind == kind) =
      ((p.parent.bind (above? wrapper)).filter fun q => q.kind == kind).map
        (Place.without loose) := by
  rcases h.parent_cases hp with ⟨hnone, hnone'⟩ | ⟨q, hq, hkept, hq'⟩ |
    ⟨w, r, hp', hr, hsuffix, -, -, hr'⟩
  · simp [hnone, hnone']
  · rw [hq, hq', Option.bind_some, Option.bind_some]
    by_cases hkind : q.kind = wrapper
    · simp only [above?, kind_without, beq_iff_eq.mpr hkind, if_true]
      rcases h.parent_cases hkept with ⟨hnone, hnone'⟩ | ⟨r, hr, -, hr'⟩ |
        ⟨w, r, hw', -, hsuffix, hne, -, hr'⟩
      · simp [hnone, hnone']
      · rw [hr, hr']
        by_cases hr : r.kind = kind <;> simp [Option.filter, hr]
      · have hother : w.kind ≠ wrapper := fun heq => hne (hkind.trans heq.symm)
        have hr : r.kind ≠ kind := fun heq => hother ((hsuffix.eq_iff hw).mpr heq)
        simp [hw', hr', Option.filter, hr, hsuffix.ne hw]
    · obtain ⟨habove, habove'⟩ := above?_without_of_ne loose hkind
      rw [habove, habove']
      by_cases hq : q.kind = kind <;> simp [Option.filter, hq]
  · obtain ⟨habove, -⟩ := above?_without_of_ne loose (hw.ne hsuffix).symm
    rw [hp', hr', Option.bind_some, Option.bind_some, habove]
    by_cases hkind : w.kind = wrapper
    · have hr'' : r.kind = kind := (hsuffix.eq_iff hw).mp hkind
      simp [above?, hkind, hr, Option.filter, hr'']
    · have hr'' : r.kind ≠ kind := fun heq => hkind ((hsuffix.eq_iff hw).mpr heq)
      simp [above?, hkind, Option.filter, hr'', hsuffix.ne hw]

lemma has_of_above? (hq : src.Has q) (ho : above? wrapper q = some r) : src.Has r := by
  unfold above? at ho
  split at ho
  · exact (mem_children_of_parent hq ho).1
  · exact Option.some.inj ho ▸ hq

/-- The climb from a lambda to what may be the call that owns it. -/
lemma owner_without (h : src.Spares loose) (hl : src.Keeps loose l) :
    ((((l.without loose).parent.bind (above? "annotated_lambda")).bind
        (above? "call_suffix")).filter fun q => q.kind == "call_expression") =
      (((l.parent.bind (above? "annotated_lambda")).bind (above? "call_suffix")).filter
        fun q => q.kind == "call_expression").map (Place.without loose) := by
  have hw : IsSuffixOf "call_suffix" "call_expression" := .inl ⟨rfl, rfl⟩
  have hclimb := h.climb_without hw hl
  rcases h.parent_cases hl with ⟨hnone, hnone'⟩ | ⟨q, hq, hkept, hq'⟩ |
    ⟨w, r, hw', -, hsuffix, -, -, hr'⟩
  · simp [hnone, hnone']
  · by_cases hkind : q.kind = "annotated_lambda"
    · simpa [hq, hq', above?, hkind] using h.climb_without hw hkept
    · obtain ⟨habove, habove'⟩ := above?_without_of_ne loose hkind
      rw [hq, hq', Option.bind_some, Option.bind_some] at hclimb ⊢
      rw [habove, habove']
      exact hclimb
  · have hkinds : w.kind ≠ "annotated_lambda" ∧ r.kind ≠ "annotated_lambda" := by
      rcases hsuffix with ⟨hw', hr'⟩ | ⟨hw', hr'⟩ <;> simp [hw', hr']
    obtain ⟨-, habove⟩ := above?_without_of_ne loose hkinds.1
    obtain ⟨habove', -⟩ := above?_without_of_ne loose hkinds.2
    rw [hw', hr', Option.bind_some, Option.bind_some] at hclimb ⊢
    rw [habove, habove']
    exact hclimb

lemma bind_eq_bind_filter {α β : Type} (o : Option α) (keep : α → Bool) (f : α → Option β)
    (h : ∀ a, keep a = false → f a = none) : o.bind f = (o.filter keep).bind f := by
  cases o with
  | none => rfl
  | some a => cases ha : keep a <;> simp [Option.filter, ha, h]

/-- What follows such a climb, where it only matters for one kind of places. -/
lemma bind_without {α : Type} {o o' : Option Place} {f f' : Place → Option α} {g : α → α}
    (ho : (o'.filter fun q => q.kind == kind) =
      (o.filter fun q => q.kind == kind).map (Place.without loose))
    (hf : ∀ q, q.kind ≠ kind → f q = none) (hf' : ∀ q, q.kind ≠ kind → f' q = none)
    (h : ∀ q ∈ o, q.kind = kind → f' (q.without loose) = (f q).map g) :
    o'.bind f' = (o.bind f).map g := by
  rw [bind_eq_bind_filter o' (fun q => q.kind == kind) f' fun q hq => hf' q (by simpa using hq),
    bind_eq_bind_filter o (fun q => q.kind == kind) f fun q hq => hf q (by simpa using hq), ho]
  cases hq : o.filter fun q => q.kind == kind with
  | none => rfl
  | some q =>
    obtain ⟨ho, hkind⟩ := Option.filter_eq_some_iff.mp hq
    exact h q ho (beq_iff_eq.mp hkind)

@[simp] lemma isToken_without (text : String) (loose : Place → Bool) (p : Place) :
    isToken text (p.without loose) = isToken text p := by
  simp [isToken]

end Source.Spares

namespace Kotlin

/-- The call, if the lambda is its own. -/
def ownerOf? (l call : Place) : Option Place :=
  (call? call).bind fun c => if (c.lambda.map (·.same l)).getD false then some call else none

lemma bind_guard {α : Type} (condition : Bool) (o : Option α) :
    ((guard (condition = true) : Option Unit).bind fun _ => o) =
      if condition then o else none := by
  cases condition <;> rfl

lemma callOfBrace?_eq (b : Place) :
    callOfBrace? b = if isToken "\x7b" b then
      b.parent.bind fun l => if l.kind == "lambda_literal" && l.start == b.start then
        ((l.parent.bind (above? "annotated_lambda")).bind (above? "call_suffix")).bind (ownerOf? l)
      else none else none := by
  simp only [callOfBrace?, bind, pure, bind_guard, Option.bind_assoc]
  rfl

end Kotlin

namespace Source.Spares

variable {src : Source} {loose : Place → Bool} {p q r b l : Place}

lemma ownerOf?_without (h : src.Spares loose) (hl : src.Keeps loose l) (hq : src.Keeps loose q) :
    ownerOf? (l.without loose) (q.without loose) =
      (ownerOf? l q).map (Place.without loose) := by
  unfold ownerOf?
  rw [h.carries.call?_eq hq]
  cases hcall : call? q with
  | none => rfl
  | some c =>
    cases hlambda : c.lambda with
    | none => simp [Call.map, hlambda]
    | some l' =>
      have hl' := (h.carries.within_of_call? hq hcall).lambda l' hlambda
      have hsame := same_without h.root hl'.1 hl.1 hl'.2 hl.2
      cases heq : l'.same l <;> simp [Call.map, hlambda, hsame, heq]

/-- A brace leads to the same call. -/
theorem callOfBrace?_without (h : src.Spares loose) (hb : src.Keeps loose b) :
    callOfBrace? (b.without loose) = (callOfBrace? b).map (Place.without loose) := by
  rw [callOfBrace?_eq, callOfBrace?_eq, isToken_without]
  by_cases htoken : isToken "\x7b" b = true
  swap
  · simp [htoken]
  rw [if_pos htoken, if_pos htoken]
  rcases h.parent_cases hb with ⟨hnone, hnone'⟩ | ⟨l, hl, hkept, hl'⟩ |
    ⟨w, r, hw, -, hsuffix, -, -, hr⟩
  · simp [hnone, hnone']
  · rw [hl, hl', Option.bind_some, Option.bind_some, kind_without, start_without, start_without]
    by_cases hlambda : (l.kind == "lambda_literal" && l.start == b.start) = true
    swap
    · simp [hlambda]
    rw [if_pos hlambda, if_pos hlambda]
    have hnone (l q : Place) (hq : q.kind ≠ "call_expression") : ownerOf? l q = none := by
      simp [ownerOf?, call?, directCall?, isCall, hq]
    apply bind_without (h.owner_without hkept) (hnone l) (hnone _)
    intro q hq hkind
    obtain ⟨s, hs, hq⟩ := Option.bind_eq_some_iff.mp hq
    obtain ⟨t, ht, hs⟩ := Option.bind_eq_some_iff.mp hs
    have hhas := has_of_above? (has_of_above? (mem_children_of_parent hkept.1 ht).1 hs) hq
    exact h.ownerOf?_without hkept (h.keeps_of_kind hhas (.inl hkind))
  · have hkinds : w.kind ≠ "lambda_literal" ∧ r.kind ≠ "lambda_literal" := by
      rcases hsuffix with ⟨hw', hr'⟩ | ⟨hw', hr'⟩ <;> simp [hw', hr']
    simp [hw, hr, hkinds]

/-- A brace leads to a call. -/
lemma keeps_of_callOfBrace? (h : src.Spares loose) (hb : src.Has b)
    (hp : callOfBrace? b = some p) : src.Keeps loose p := by
  obtain ⟨-, between, heq, -⟩ := callOfBrace?_eq_some hp
  have hmem : p ∈ b.selfAndAncestors := by
    rw [selfAndAncestors, heq]
    simp [selfAndAncestors]
  refine h.keeps_of_isCall (below_of_mem_selfAndAncestors hb hmem).1 ?_
  simp only [callOfBrace?, bind, Option.bind_eq_some_iff] at hp
  obtain ⟨-, -, l, -, -, -, owner, -, owner', -, q, -, c, hc, -, -, hq⟩ := hp
  exact Option.some.inj hq ▸ isCall_of_call? hc

/-! ### Dots -/

lemma isCalleeOf_without (h : src.Spares loose) (hp : src.Keeps loose p)
    (hq : src.Keeps loose q) :
    isCalleeOf (p.without loose) (q.without loose) = isCalleeOf p q := by
  unfold isCalleeOf
  rw [isCall_without]
  cases hcall : isCall q with
  | false => rfl
  | true =>
    rw [h.namedChildren_without hq]
    cases hchildren : q.namedChildren with
    | nil => rfl
    | cons callee rest =>
      have hcallee := h.keeps_callee hq.1 hcall (c := callee) (by simp [hchildren])
      have hsame := same_without h.root hcallee.1 hp.1 hcallee.2 hp.2
      simp [spread, hcallee.2, hsame]

/-- A call that none calls, or a member access that none calls, is not called without the spare
nodes, either. -/
lemma not_isCalleeOf_without (h : src.Spares loose) (hp : src.Keeps loose p)
    (hnone : ∀ q, p.parent = some q → isCalleeOf p q = false) :
    ∀ q, (p.without loose).parent = some q → isCalleeOf (p.without loose) q = false := by
  intro q' hq'
  rcases h.parent_cases hp with ⟨-, hparent⟩ | ⟨q, hq, hkept, hparent⟩ |
    ⟨w, r, hw, -, hsuffix, -, hkept, hparent⟩
  · simp [hparent] at hq'
  · cases hparent.symm.trans hq'
    rw [h.isCalleeOf_without hp hkept]
    exact hnone q hq
  · cases hparent.symm.trans hq'
    rw [h.isCalleeOf_without hp hkept, ← Bool.not_eq_true]
    intro hcallee
    obtain ⟨-, hhead⟩ := mem_head?_of_isCalleeOf hp.1 hkept.1 hcallee
    have hchild := mem_children_of_mem_namedChildren (List.mem_of_mem_head? hhead)
    cases hw.symm.trans (parent_of_mem_children hchild)
    exact hsuffix.ne hsuffix rfl

/-- Around a call stands the same outermost call, and it is kept. -/
lemma outermostCall_without (h : src.Spares loose) (hp : src.Has p) (hcall : isCall p = true) :
    outermostCall (p.without loose) = (outermostCall p).without loose ∧
      src.Keeps loose (outermostCall p) := by
  induction hp with
  | refl =>
    have hkept := h.keeps_of_isCall .refl hcall
    have hnone : ∀ q, src.rootPlace.parent = some q → isCalleeOf src.rootPlace q = false := by
      simp [rootPlace, Place.root, parent]
    rw [outermostCall_eq_self (h.not_isCalleeOf_without hkept hnone), outermostCall_eq_self hnone]
    exact ⟨rfl, hkept⟩
  | @down q index child hq hc _ ih =>
    have hkept := h.keeps_of_isCall (hq.down hc rfl) hcall
    cases hcallee : isCalleeOf (q.down index child) q with
    | true =>
      have hcall := (mem_head?_of_isCalleeOf hkept.1 hq hcallee).1
      have hq := h.keeps_of_isCall hq hcall
      have hparent := parent_without_of_kept (parent_down q index child) hq.2
      have hcallee' := (h.isCalleeOf_without hkept hq).trans hcallee
      rw [outermostCall_of_isCalleeOf (parent_down q index child) hcallee,
        outermostCall_of_isCalleeOf hparent hcallee']
      exact ih hcall
    | false =>
      have hnone : ∀ r, (q.down index child).parent = some r →
          isCalleeOf (q.down index child) r = false := by
        intro r hr
        cases hr
        exact hcallee
      rw [outermostCall_eq_self (h.not_isCalleeOf_without hkept hnone), outermostCall_eq_self hnone]
      exact ⟨rfl, hkept⟩

end Source.Spares

namespace Kotlin

/-- The expression of a member access: the outermost call of the member, or the access itself. -/
def expressionOf (nav : Place) : Place :=
  match nav.parent with
  | some call => if isCalleeOf nav call then outermostCall call else nav
  | none => nav

lemma expressionOfDot?_eq (dot : Place) :
    expressionOfDot? dot = if isToken "." dot then
      (dot.parent.bind (above? "navigation_suffix")).bind fun nav =>
        if (navigation? nav).isSome then some (expressionOf nav) else none else none := by
  simp only [expressionOfDot?, bind, pure, bind_guard, Option.bind_assoc]
  refine ite_congr rfl (fun _ => ?_) fun _ => rfl
  refine Option.bind_congr fun parent _ => Option.bind_congr fun nav _ => ?_
  unfold expressionOf
  cases nav.parent <;> rfl

end Kotlin

namespace Source.Spares

variable {src : Source} {loose : Place → Bool} {p q dot nav : Place}

lemma expressionOf_of_callee (hparent : nav.parent = some q) (hcallee : isCalleeOf nav q = true) :
    expressionOf nav = outermostCall q := by
  simp [expressionOf, hparent, hcallee]

lemma expressionOf_eq_self (h : ∀ q, nav.parent = some q → isCalleeOf nav q = false) :
    expressionOf nav = nav := by
  unfold expressionOf
  split
  · rename_i q hq
    simp [h q hq]
  · rfl

lemma expressionOf_without (h : src.Spares loose) (hnav : src.Keeps loose nav) :
    expressionOf (nav.without loose) = (expressionOf nav).without loose ∧
      src.Keeps loose (expressionOf nav) := by
  by_cases hcalled : ∃ q, nav.parent = some q ∧ isCalleeOf nav q = true
  · obtain ⟨q, hparent, hcallee⟩ := hcalled
    have hq := (mem_children_of_parent hnav.1 hparent).1
    have hcall := (mem_head?_of_isCalleeOf hnav.1 hq hcallee).1
    have hkept := h.keeps_of_isCall hq hcall
    have hcallee' := (h.isCalleeOf_without hnav hkept).trans hcallee
    rw [expressionOf_of_callee hparent hcallee,
      expressionOf_of_callee (parent_without_of_kept hparent hkept.2) hcallee']
    exact h.outermostCall_without hq hcall
  · have hnone : ∀ q, nav.parent = some q → isCalleeOf nav q = false := by simpa using hcalled
    rw [expressionOf_eq_self hnone, expressionOf_eq_self (h.not_isCalleeOf_without hnav hnone)]
    exact ⟨rfl, hnav⟩

lemma keeps_of_dot (h : src.Spares loose) (hdot : src.Has dot)
    (hclimb : dot.parent.bind (above? "navigation_suffix") = some nav)
    (hkind : nav.kind = "navigation_expression") : src.Keeps loose nav := by
  obtain ⟨q, hq, hnav⟩ := Option.bind_eq_some_iff.mp hclimb
  exact h.keeps_of_kind (has_of_above? (mem_children_of_parent hdot hq).1 hnav) (.inr hkind)

/-- A dot leads to the same expression. -/
theorem expressionOfDot?_without (h : src.Spares loose) (hdot : src.Keeps loose dot) :
    expressionOfDot? (dot.without loose) =
      (expressionOfDot? dot).map (Place.without loose) := by
  rw [expressionOfDot?_eq, expressionOfDot?_eq, isToken_without]
  split
  · have hnone (q : Place) (hq : q.kind ≠ "navigation_expression") :
        (if (navigation? q).isSome then some (expressionOf q) else none) = none := by
      simp [navigation?, hq]
    apply bind_without (h.climb_without (.inr ⟨rfl, rfl⟩) hdot) hnone hnone
    intro nav hclimb hkind
    have hkept := h.keeps_of_dot hdot.1 hclimb hkind
    rw [h.navigation?_without hkept, Option.isSome_map, (h.expressionOf_without hkept).1]
    split <;> rfl
  · rfl

lemma keeps_of_expressionOfDot? (h : src.Spares loose) (hdot : src.Has dot)
    (hp : expressionOfDot? dot = some p) : src.Keeps loose p := by
  rw [expressionOfDot?_eq] at hp
  split at hp
  · obtain ⟨nav, hclimb, hp⟩ := Option.bind_eq_some_iff.mp hp
    split at hp
    · rename_i hsome
      obtain ⟨n, hn⟩ := Option.isSome_iff_exists.mp hsome
      have hkept := h.keeps_of_dot hdot hclimb (navigation?_eq_some hn).1
      exact Option.some.inj hp ▸ (h.expressionOf_without hkept).2
    · simp at hp
  · simp at hp

end Source.Spares

end SpecLens
