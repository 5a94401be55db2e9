import SpecLens.Proofs.Spec.Innermost
import SpecLens.Proofs.Style.Container

/-!
# How a test opens

A call that declares a test starts with a keyword, or with its name as a string literal. Nothing
else that declares anything starts there: the calls that the call calls have no block, and names and
literals start with tokens of their own. So the first byte of a test leads to this test.
-/

namespace SpecLens

open Kotlin Place

/-- What the grammar promises of names and string literals. A name holds neither calls nor
declarations, and a literal starts with a quote, so no call or declaration in it starts there. -/
structure Source.TokenStarts (src : Source) : Prop where
  names : ∀ p ∈ src.rootPlace.preorder, isIdentifier p = true → ∀ q ∈ p.preorder, isInner q = true
  literals : ∀ p ∈ src.rootPlace.preorder, isStringLiteral p = true →
    p.start < p.stop ∧ ∀ q ∈ p.preorder, isInner q = true ∨ p.start < q.start

namespace Kotlin

variable {src : Source} {p q x : Place}

/-- A call with a block, or a class or object that the search for declarations enters. -/
def Landmark (p : Place) : Prop :=
  HasBlock p ∨ walkedNode p.node = true ∧ isDeclaration p.node = true

lemma not_landmark_of_isInner (h : isInner p = true) : ¬Landmark p := by
  simp only [isInner, Bool.and_eq_true, Bool.not_eq_true'] at h
  rintro (⟨c, -, hc, -⟩ | ⟨-, hdecl⟩)
  · simp [isCall_of_call? hc] at h
  · simp [hdecl] at h

lemma not_landmark_of_call (hcall : isCall p = true) (h : ¬HasBlock p) : ¬Landmark p := by
  rintro (hblock | ⟨-, hdecl⟩)
  · exact h hblock
  · simp [not_isDeclaration_of_isCall hcall] at hdecl

/-- A token or a comment holds no landmark and is none. -/
lemma not_landmark_of_skipped (h : src.BareTokens) (hp : src.Has p)
    (hskip : walkedNode p.node = false) (hq : Below p q) : ¬Landmark q := by
  have htoken : p.node.named = false ∨ p.node.isComment = true := by
    simpa [walkedNode, imp_iff_not_or] using hskip
  have hleaf := h p (mem_preorder.mpr hp) htoken
  rw [eq_of_below_token hleaf hq]
  rintro (⟨c, -, hc, -⟩ | ⟨hwalked, -⟩)
  · exact children_ne_nil_of_call? hc hleaf
  · simp [hskip] at hwalked

/-- A place with a text, where no landmark below it is around the first byte. -/
def Opens (p : Place) : Prop :=
  p.start < p.stop ∧ ∀ q, Below p q → q ≠ p → q.node.covers p.start = true → ¬Landmark q

/-- The same for the place itself, too. -/
def Quiet (p : Place) : Prop := Opens p ∧ ¬Landmark p

/-- The first child with a text decides for its parent. -/
lemma Quiet.opens (h : src.WellNested) (hp : src.Has p) {before after : List Place}
    (hchildren : p.children = before ++ x :: after)
    (hbefore : ∀ b ∈ before, ∀ q, Below b q → ¬Landmark q) (hx : Quiet x) : Opens p := by
  obtain ⟨⟨hfilled, hopens⟩, hplain⟩ := hx
  have hordered := h.ordered p (mem_preorder.mpr hp)
  have hxp := h.inside p (mem_preorder.mpr hp) x (by simp [hchildren])
  refine ⟨by omega, fun q hq hne hcovers => ?_⟩
  obtain ⟨c, hc, -, hcq⟩ := (Reach.iff_child.mp hq).resolve_left hne
  have hrange := h.nested.range_le (hp.child hc rfl) hcq
  rw [covers_iff] at hcovers
  rw [hchildren, List.mem_append, List.mem_cons] at hc
  rcases hc with hc | rfl | hc
  · exact hbefore c hc q hcq
  · by_cases heq : q = c
    · rw [heq]
      exact hplain
    · exact hopens q hcq heq (covers_iff.mpr (by omega))
  · -- What follows the first child starts behind it.
    rw [hchildren, List.pairwise_append, List.pairwise_cons] at hordered
    have := hordered.2.1.1 c hc
    omega

lemma Quiet.opens_of_head (h : src.WellNested) (hp : src.Has p)
    (hhead : x ∈ p.namedChildren.head?) (hx : Quiet x) : Opens p := by
  obtain ⟨rest, hnamed⟩ := List.head?_eq_some_iff.mp hhead
  obtain ⟨before, after, hchildren, hbefore, -⟩ := List.filter_eq_cons_iff.mp hnamed
  refine hx.opens h hp hchildren fun b hb q hq => ?_
  have hskip : walkedNode b.node = false := Bool.eq_false_iff.mpr (hbefore b hb)
  exact not_landmark_of_skipped h.bareTokens (hp.child (by simp [hchildren, hb]) rfl) hskip hq

lemma not_landmark_of_navigation_kind
    (h : p.kind ∈ ["navigation_suffix", "navigation_expression"]) : ¬Landmark p := by
  apply not_landmark_of_isInner
  apply isInner_of_kind
  revert h
  generalize p.kind = kind
  revert kind
  decide

/-- The receiver of a member access is the first of its tokens that is a rule of the grammar. -/
lemma head?_of_navigation? {n : Navigation} (h : navigation? p = some n) :
    ((navigationTokens p).filter (walkedNode ·.node)).head? = some n.receiver := by
  unfold navigation? at h
  split at h
  · simp at h
  · dsimp only at h
    split at h
    · rename_i receiver member hreceiver hmember
      split at h
      · simp at h
      · split at h
        · cases h
          exact hreceiver
        · simp at h
    · simp at h

lemma Quiet.opens_of_receiver (h : src.WellNested) (hp : src.Has p) {n : Navigation}
    (hn : navigation? p = some n) (hreceiver : Quiet n.receiver) : Opens p := by
  have hhead := head?_of_navigation? hn
  rw [navigationTokens, List.filter_flatMap, List.head?_flatMap,
    List.findSome?_eq_some_iff] at hhead
  obtain ⟨before, c, after, hchildren, hc, hbefore⟩ := hhead
  have hhas {x : Place} (hx : x ∈ p.children) : src.Has x := hp.child hx rfl
  have hquiet : Quiet c := by
    split at hc
    · rename_i hkind
      exact ⟨hreceiver.opens_of_head h (hhas (by simp [hchildren])) hc,
        not_landmark_of_navigation_kind (by simp [beq_iff_eq.mp hkind])⟩
    · have heq : c = n.receiver := by
        by_cases hwalked : walkedNode c.node = true
        · simpa [hwalked] using hc
        · simp [hwalked] at hc
      rw [heq]
      exact hreceiver
  refine hquiet.opens h hp hchildren fun b hb q hq => ?_
  have hbhas : src.Has b := hhas (by simp [hchildren, hb])
  have hnone := List.head?_eq_none_iff.mp (hbefore b hb)
  split at hnone
  · rename_i hkind
    rcases Reach.iff_child.mp hq with rfl | ⟨c, hc, -, hcq⟩
    · exact not_landmark_of_navigation_kind (by simp [beq_iff_eq.mp hkind])
    · have hskip : walkedNode c.node = false := by
        simpa using List.filter_eq_nil_iff.mp hnone c hc
      exact not_landmark_of_skipped h.bareTokens (hbhas.child hc rfl) hskip hcq
  · have hskip : walkedNode b.node = false := by
      simpa using List.filter_eq_nil_iff.mp hnone b (by simp)
    exact not_landmark_of_skipped h.bareTokens hbhas hskip hq

lemma textOf_eq_nil (h : p.stop ≤ p.start) : src.textOf p = [] := by
  have hwidth : p.stop - p.start = 0 := by omega
  rw [Source.textOf, Text.slice?, hwidth]
  split
  · cases Text.dropBytes p.start src.chars with
    | none => rfl
    | some cs => simp [Text.takeBytes]
  · rfl

lemma Quiet.of_name (hstarts : src.TokenStarts) (hp : src.Has p) {name : String}
    (h : identifierName? src p = some name) (hname : name ≠ "") : Quiet p := by
  unfold identifierName? at h
  split at h
  · rename_i hidentifier
    cases h
    have hinner := hstarts.names p (mem_preorder.mpr hp) hidentifier
    have hfilled : p.start < p.stop := by
      by_contra hempty
      apply hname
      rw [textOf_eq_nil (Nat.le_of_not_lt hempty)]
      rfl
    exact ⟨⟨hfilled, fun q hq _ _ => not_landmark_of_isInner (hinner q (mem_preorder.mpr hq))⟩,
      not_landmark_of_isInner (hinner p (mem_preorder.mpr .refl))⟩
  · simp at h

lemma Quiet.of_literal (hstarts : src.TokenStarts) (hp : src.Has p) {l : Literal}
    (h : literal? src p = some l) : Quiet p := by
  unfold literal? at h
  split at h
  · rename_i hliteral
    obtain ⟨hfilled, hquote⟩ := hstarts.literals p (mem_preorder.mpr hp) hliteral
    have hquiet {q : Place} (hq : Below p q) (hstart : q.start ≤ p.start) : ¬Landmark q := by
      rcases hquote q (mem_preorder.mpr hq) with hinner | hlate
      · exact not_landmark_of_isInner hinner
      · omega
    exact ⟨⟨hfilled, fun q hq _ hcovers => hquiet hq (covers_iff.mp hcovers).1⟩,
      hquiet .refl (Nat.le_refl _)⟩
  · simp at h

lemma below_callee {c : Call} (h : call? p = some c) : Below p c.callee := by
  have hhead {x y : Place} (hx : x ∈ y.namedChildren.head?) : Below y x :=
    below_of_mem_children (mem_children_of_mem_namedChildren (List.mem_of_mem_head? hx))
  rcases callee_of_call? h with hcallee | ⟨inner, hinner, -, hcallee⟩
  · exact hhead hcallee
  · exact (hhead hinner).trans (hhead hcallee)

/-- A call opens as what it calls does. -/
lemma Quiet.opens_of_callee (h : src.WellNested) (hp : src.Has p) {c : Call}
    (hc : call? p = some c) (hcallee : Quiet c.callee) : Opens p := by
  obtain ⟨outer, hdirect, -, heq | ⟨inner, hinner, hnone, heq⟩⟩ := call?_eq_some hc
  · obtain ⟨-, -, rest, hchildren, -⟩ := directCall?_eq_some hdirect
    exact (heq ▸ hcallee).opens_of_head h hp (by simp [hchildren])
  · obtain ⟨-, -, rest, hchildren, -⟩ := directCall?_eq_some hdirect
    obtain ⟨hcall, -, rest', hchildren', -⟩ := directCall?_eq_some hinner
    have hmem : outer.callee ∈ p.namedChildren := by simp [hchildren]
    have hhas : src.Has outer.callee := hp.child (mem_children_of_mem_namedChildren hmem) rfl
    have hopens : Opens outer.callee :=
      (heq ▸ hcallee).opens_of_head h hhas (by simp [hchildren'])
    have hplain := not_landmark_of_call hcall (not_hasBlock_of_directCall? hinner hnone)
    exact Quiet.opens_of_head h hp (by simp [hchildren]) ⟨hopens, hplain⟩

/-- A configured declaration opens as what is configured does. -/
lemma opens_of_invokes (h : src.WellNested) (hp : src.Has p) {d : DotExpression} {member : String}
    (hd : dotExpression? p = some d) (hinvokes : d.invokes src member = true)
    (hreceiver : src.Has d.receiver → Quiet d.receiver) : Opens p := by
  obtain ⟨c, n, -, hc, hn, -, -, rfl⟩ := exists_of_invokes hd hinvokes
  have hcallee : src.Has c.callee := hp.trans (below_callee hc)
  have htoken : n.receiver ∈ navigationTokens c.callee :=
    (List.mem_filter.mp (List.mem_of_mem_head? (head?_of_navigation? hn))).1
  have hbelow : Below c.callee n.receiver := below_of_mem_navigationTokens htoken
  have hquiet : Quiet n.receiver := hreceiver (hcallee.trans hbelow)
  have hplain : ¬Landmark c.callee :=
    not_landmark_of_navigation_kind (by simp [(navigation?_eq_some hn).1])
  exact Quiet.opens_of_callee h hp hc ⟨hquiet.opens_of_receiver h hcallee hn, hplain⟩

lemma opens_of_literalOfCall? (h : src.WellNested) (hstarts : src.TokenStarts) (hp : src.Has p)
    {names : List String} (hnames : ∀ name ∈ names, name ≠ "") {l : Literal}
    (hl : literalOfCall? src names p = some l) : Opens p := by
  obtain ⟨c, hc, hl⟩ := Option.bind_eq_some_iff.mp hl
  obtain ⟨name, hname, hl⟩ := Option.bind_eq_some_iff.mp hl
  split at hl
  · rename_i hnamed
    simp only [Bool.and_eq_true, List.contains_iff_mem] at hnamed
    exact (Quiet.of_name hstarts (hp.trans (below_callee hc)) hname
      (hnames name hnamed.1)).opens_of_callee h hp hc
  · simp at hl

lemma opens_of_literalOfInvoke? (h : src.WellNested) (hstarts : src.TokenStarts) (hp : src.Has p)
    {l : Literal} (hl : literalOfInvoke? src p = some l) : Opens p := by
  obtain ⟨c, hc, hl⟩ := Option.bind_eq_some_iff.mp hl
  split at hl
  · exact (Quiet.of_literal hstarts (hp.trans (below_callee hc)) hl).opens_of_callee h hp hc
  · simp at hl

lemma opens_of_literalOfReceiver? (h : src.WellNested) (hstarts : src.TokenStarts)
    (hp : src.Has p) {member : String} {l : Literal}
    (hl : literalOfReceiver? src member p = some l) : Opens p := by
  obtain ⟨d, hd, hl⟩ := Option.bind_eq_some_iff.mp hl
  split at hl
  · rename_i hinvokes
    exact opens_of_invokes h hp hd hinvokes fun hhas => .of_literal hstarts hhas hl
  · simp at hl

lemma opens_of_literalOfChain? (h : src.WellNested) (hstarts : src.TokenStarts) (hp : src.Has p)
    {names : List String} (hnames : ∀ name ∈ names, name ≠ "") {member : String} {l : Literal}
    (hl : literalOfChain? src names member p = some l) : Opens p := by
  obtain ⟨d, hd, hl⟩ := Option.bind_eq_some_iff.mp hl
  split at hl
  · rename_i hinvokes
    obtain ⟨c, hc, hl⟩ := Option.bind_eq_some_iff.mp hl
    obtain ⟨name, hname, hl⟩ := Option.bind_eq_some_iff.mp hl
    split at hl
    · rename_i hnamed
      simp only [Bool.and_eq_true, List.contains_iff_mem, Option.isNone_iff_eq_none] at hnamed
      refine opens_of_invokes h hp hd hinvokes fun hhas => ?_
      have hcallee := Quiet.of_name hstarts (hhas.trans (below_callee hc)) hname
        (hnames name hnamed.2)
      refine ⟨hcallee.opens_of_callee h hhas hc, not_landmark_of_call (isCall_of_call? hc) ?_⟩
      rintro ⟨c', l', hc', hl', -⟩
      cases hc.symm.trans hc'
      simp [hnamed.1] at hl'
    · simp at hl
  · simp at hl

end Kotlin

/-! ### Recognized nodes -/

namespace Style

variable {s : Style} {src : Source} {p : Place} {t : Test} {keywords : List Keyword}
  {kind : TestKind} {d : Declared}

/-- No keyword of a style is empty. -/
def Worded (s : Style) : Prop :=
  ∀ k ∈ s.leafCalls ++ s.leafChains ++ s.containerCalls ++ s.containerChains, k.name ≠ ""

lemma builtin_worded : ∀ s ∈ Style.builtin, s.Worded := by
  unfold Worded
  decide

lemma opens_of_declaredByCall? (h : src.WellNested) (hstarts : src.TokenStarts) (hp : src.Has p)
    (hkeywords : ∀ k ∈ keywords, k.name ≠ "") (hd : declaredByCall? src keywords kind p = some d) :
    Opens p := by
  obtain ⟨c, k, l, -, -, hk, hl, -⟩ := exists_of_declaredByCall? hd
  exact opens_of_literalOfCall? h hstarts hp (by simpa using hkeywords k hk) hl

lemma opens_of_declaredByChain? (h : src.WellNested) (hstarts : src.TokenStarts) (hp : src.Has p)
    (hkeywords : ∀ k ∈ keywords, k.name ≠ "") (hd : declaredByChain? src keywords kind p = some d) :
    Opens p := by
  obtain ⟨e, k, l, -, -, hk, hl, -⟩ := exists_of_declaredByChain? hd
  exact opens_of_literalOfChain? h hstarts hp (by simpa using hkeywords k hk) hl

lemma opens_of_declaredByString? (h : src.WellNested) (hstarts : src.TokenStarts) (hp : src.Has p)
    (hd : declaredByString? src p = some d) : Opens p := by
  obtain ⟨l, hl, -⟩ := Option.map_eq_some_iff.mp hd
  rcases Option.or_eq_some_iff.mp hl with hl | ⟨-, hl⟩
  · exact opens_of_literalOfInvoke? h hstarts hp hl
  · exact opens_of_literalOfReceiver? h hstarts hp hl

/-- Where a recognized node starts, nothing below it declares anything. -/
theorem opens_of_test? (hs : s.Worded) (h : src.WellNested) (hstarts : src.TokenStarts)
    (hp : src.Has p) (ht : s.test? src p = some t) : Opens p := by
  simp only [Worded, List.forall_mem_append] at hs
  obtain ⟨⟨⟨hleafCalls, hleafChains⟩, hcontainerCalls⟩, hcontainerChains⟩ := hs
  obtain ⟨d, hd, -⟩ := Option.map_eq_some_iff.mp ht
  rcases declared?_cases hd with hleaf | hcontainer
  · rcases leaf?_cases hleaf with ⟨-, hstring⟩ | hcall | hchain
    · exact opens_of_declaredByString? h hstarts hp hstring
    · exact opens_of_declaredByCall? h hstarts hp hleafCalls hcall
    · exact opens_of_declaredByChain? h hstarts hp hleafChains hchain
  · rcases container?_cases hcontainer with hcall | hchain
    · exact opens_of_declaredByCall? h hstarts hp hcontainerCalls hcall
    · exact opens_of_declaredByChain? h hstarts hp hcontainerChains hchain

end Style

namespace Discovery

variable {d : Discovery} {src : Source} {decl : Declaration} {s : Style} {n : Place} {t : Test}

lemma walkedNode_of_mem_declarations (hdecl : decl ∈ declarations src) :
    walkedNode decl.place.node = true := by
  have hmem : decl.place ∈ (declarations src).map (·.place) := List.mem_map_of_mem hdecl
  rw [map_place_declarations, visit_tail] at hmem
  obtain ⟨c, -, hc⟩ := List.mem_flatMap.mp (List.mem_filter.mp hmem).1
  split at hc
  · rename_i hwalked
    rcases (mem_visit.mp hc).eq_or_keep with heq | hkept
    · rw [heq]
      exact hwalked
    · exact hkept
  · simp at hc

/-- At the first byte of a listed test stands the declaration of its spec, no other one. -/
lemma owned_innermost (h : src.WellNested) (ho : (decl, s) ∈ d.owners src)
    (hn : Inside decl.place n) (hplain : isDeclaration n.node = false) (hopens : Opens n) :
    Innermost (d.Owned src n.start) decl.place := by
  obtain ⟨hdecl, hs⟩ := mem_owners.mp ho
  have hhas := (mem_declarations hdecl).1
  have hnhas := hhas.trans hn.toBelow
  have hcovers : n.node.covers n.start = true := covers_iff.mpr ⟨Nat.le_refl _, hopens.1⟩
  have hdeclCovers := h.nested.covers_of_below hhas hn.toBelow hcovers
  refine ⟨⟨hdeclCovers, decl, hdecl, rfl, by simp [hs]⟩, ?_⟩
  rintro x ⟨hx, decl', hdecl', rfl, -⟩
  obtain ⟨hhas', hkind', -⟩ := mem_declarations hdecl'
  rcases h.nested.below_or_below hhas' hhas hx hdeclCovers with hbelow | hbelow
  · exact hbelow
  rcases h.nested.below_or_below hhas' hnhas hx hcovers with habove | hunder
  · -- Between a declaration and what stands inside it there is no other declaration.
    rcases (hn.of_below hbelow habove).eq_or_keep with heq | hkept
    · rw [heq]
      exact .refl
    · simp [hkind'] at hkept
  · have hne : decl'.place ≠ n := by
      rintro heq
      rw [heq, hplain] at hkind'
      simp at hkind'
    exact (hopens.2 _ hunder hne hx
      (.inr ⟨walkedNode_of_mem_declarations hdecl', hkind'⟩)).elim

/-- At the first byte of a listed test no other node is recognized below the test. -/
lemma recognized_innermost (h : src.WellNested) (hdecl : decl ∈ declarations src)
    (hn : Inside decl.place n) (ht : s.test? src n = some t) (hopens : Opens n) :
    Innermost (Recognized src decl s n.start) n := by
  have hhas := (mem_declarations hdecl).1
  have hcovers : n.node.covers n.start = true := covers_iff.mpr ⟨Nat.le_refl _, hopens.1⟩
  have hne : n ≠ decl.place := by
    rintro rfl
    simp [test?_declaration hdecl] at ht
  refine ⟨⟨hn.toBelow, hne, hcovers, by simp [ht]⟩, ?_⟩
  rintro x ⟨hx, -, hxcovers, hsome⟩
  rcases h.nested.below_or_below (hhas.trans hx) (hhas.trans hn.toBelow) hxcovers hcovers with
    hbelow | hunder
  · exact hbelow
  · by_cases heq : x = n
    · rw [heq]
      exact .refl
    · obtain ⟨u, hu⟩ := Option.isSome_iff_exists.mp hsome
      exact (hopens.2 x hunder heq hxcovers (.inl (Style.hasBlock_of_test? hu))).elim

/-- The first byte of a listed test leads to this test and its spec. -/
theorem enclosing_of_mem_allTests (h : src.WellNested) (hstarts : src.TokenStarts)
    (hs : s.Worded) (ho : (decl, s) ∈ d.owners src) (ht : t ∈ (specOf src decl s).allTests) :
    d.enclosing src t.anchor.startByte = some ⟨decl.name, decl.fqn, s.name, some t⟩ := by
  have hdecl := (mem_owners.mp ho).1
  obtain ⟨n, hn, hnt⟩ := (mem_allTests h hdecl).mp ht
  have hopens := Style.opens_of_test? hs h hstarts ((mem_declarations hdecl).1.trans hn.toBelow) hnt
  have hstart : t.anchor.startByte = n.start := by rw [Style.anchor_of_test? hnt]; rfl
  have howned := owned_innermost h ho hn (Style.not_isDeclaration_of_test? hnt) hopens
  have htest : testAt? src decl s n.start = some t :=
    (testAt?_eq_iff h hdecl howned.1.1).mpr
      (.inl ⟨n, recognized_innermost h hdecl hn hnt hopens, hnt.symm⟩)
  rw [hstart, enclosing, (owner?_eq_some_iff h).mpr ⟨ho, howned⟩, Option.map_some]
  dsimp only
  rw [htest]

end Discovery

end SpecLens
