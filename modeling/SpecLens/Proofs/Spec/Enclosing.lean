import SpecLens.Proofs.Spec.Body

/-!
# The test around an offset

`enclosing` climbs from a leaf, `specs` walks down from a declaration. Both see the same test unless
the innermost recognized node around the offset stands in a declaration within the spec's: the walk
stops there, the climb does not.
-/

namespace SpecLens

open Kotlin Place

/-- The innermost of the listed tests around an offset: the last one in source order. -/
def Spec.testAround? (s : Spec) (offset : Nat) : Option Test :=
  (s.allTests.filter (·.anchor.contains offset)).getLast?

namespace Discovery

variable {src : Source} {decl : Declaration} {s : Style} {offset : Nat} {leaf p : Place}

/-- Whether a style recognizes a node around an offset. -/
def marks (src : Source) (s : Style) (offset : Nat) (p : Place) : Bool :=
  p.node.covers offset && (s.test? src p).isSome

/-- The recognized nodes around an offset that stand at or below a declaration. -/
def marked (src : Source) (decl : Declaration) (s : Style) (offset : Nat) : List Place :=
  decl.place.preorder.filter (marks src s offset)

/-- The innermost of them. -/
def innermost? (src : Source) (decl : Declaration) (s : Style) (offset : Nat) : Option Place :=
  (marked src decl s offset).getLast?

/-- The places on the way up from a leaf before a declaration is met. -/
def climb (decl : Declaration) (leaf : Place) : List Place :=
  leaf.selfAndAncestors.takeWhile fun p => !p.same decl.place

lemma mem_marked : p ∈ marked src decl s offset ↔
    Below decl.place p ∧ p.node.covers offset = true ∧ (s.test? src p).isSome = true := by
  rw [marked, List.mem_filter, mem_preorder, marks, Bool.and_eq_true]

lemma innermost?_eq_some_iff (h : src.WellNested) (hdecl : decl ∈ declarations src) :
    innermost? src decl s offset = some p ↔
      p ∈ marked src decl s offset ∧ ∀ x ∈ marked src decl s offset, Below x p := by
  apply h.nested.getLast?_eq_some_iff
  · intro x hx
    obtain ⟨hbelow, hcovers, -⟩ := mem_marked.mp hx
    exact ⟨(mem_declarations hdecl).1.trans hbelow, hcovers⟩
  · rw [marked, preorder_eq_visit]
    exact (visit_pairwise _ _).filter _

lemma not_same_declaration (hdecl : decl ∈ declarations src) (hp : src.Has p)
    (hne : p ≠ decl.place) : (!p.same decl.place) = true := by
  rw [Bool.not_eq_true', ← Bool.not_eq_true, same_iff hp (mem_declarations hdecl).1]
  exact hne

/-- The climb is all that stands between the declaration and the leaf. -/
lemma climb_append (hdecl : decl ∈ declarations src) (hleaf : Below decl.place leaf) :
    leaf.selfAndAncestors = climb decl leaf ++ decl.place.selfAndAncestors ∧
      ∀ x ∈ climb decl leaf, Below decl.place x := by
  obtain ⟨between, heq, hbetween⟩ := hleaf.selfAndAncestors_eq
  have hclimb : climb decl leaf = between := by
    rw [climb, heq, List.takeWhile_append_of_pos, selfAndAncestors, List.takeWhile_cons_of_neg,
      List.append_nil]
    · simp [same]
    · intro x hx
      obtain ⟨hbelow, hne, -⟩ := hbetween x hx
      exact not_same_declaration hdecl ((mem_declarations hdecl).1.trans hbelow) hne
  rw [hclimb]
  exact ⟨heq, fun x hx => (hbetween x hx).1⟩

/-- What a leaf is recognized as by itself is the first thing the climb recognizes. -/
lemma findSome?_climb_of_token {t : Test} (hdecl : decl ∈ declarations src) (hleaf : src.Has leaf)
    (ht : s.testAtToken? src leaf = some t) :
    (climb decl leaf).findSome? (s.test? src) = some t := by
  obtain ⟨hinner, n, silent, hsilent, hn, hnone⟩ := Style.testAtToken?_eq_some hleaf ht
  have hway : leaf.selfAndAncestors = (leaf :: silent) ++ n :: n.ancestors := by
    rw [selfAndAncestors, hsilent]
    rfl
  have hquiet : ∀ x ∈ leaf :: silent, isDeclaration x.node = false ∧ s.test? src x = none := by
    rw [List.forall_mem_cons]
    refine ⟨⟨?_, Style.test?_eq_none_of_isInner s src hinner⟩, hnone⟩
    simp only [isInner, Bool.and_eq_true, Bool.not_eq_true'] at hinner
    exact hinner.2
  have hpast (x : Place) (hx : x ∈ leaf.selfAndAncestors) (hplain : isDeclaration x.node = false) :
      (!x.same decl.place) = true := by
    apply not_same_declaration hdecl (below_of_mem_selfAndAncestors hleaf hx).1
    rintro rfl
    rw [(mem_declarations hdecl).2.1] at hplain
    simp at hplain
  rw [climb, hway, List.takeWhile_append_of_pos, List.takeWhile_cons_of_pos,
    List.findSome?_append, List.findSome?_eq_none_iff.mpr fun x hx => (hquiet x hx).2,
    List.findSome?_cons, hn, Option.none_or]
  · apply hpast n
    · rw [hway]
      exact List.mem_append_right _ List.mem_cons_self
    · exact Style.not_isDeclaration_of_test? hn
  · intro x hx
    apply hpast x
    · rw [hway]
      exact List.mem_append_left _ hx
    · exact (hquiet x hx).1

/-- The climb passes by every recognized node around the offset. -/
lemma mem_climb_of_mem_marked (h : src.WellNested) (hdecl : decl ∈ declarations src)
    (hleaf : src.leafAt offset = some leaf) (hbelow : Below decl.place leaf)
    (hp : p ∈ marked src decl s offset) : p ∈ climb decl leaf := by
  obtain ⟨hdeclp, hcovers, hsome⟩ := mem_marked.mp hp
  have hhas := (mem_declarations hdecl).1
  have hpleaf := (h.below_leafAt hleaf (hhas.trans hdeclp) hcovers).2.2
  have hmem := (climb_append hdecl hbelow).1 ▸ hpleaf.mem_selfAndAncestors
  refine (List.mem_append.mp hmem).resolve_right fun habove => ?_
  have hpdecl := (below_of_mem_selfAndAncestors hhas habove).2
  rw [← hdeclp.antisymm hpdecl, test?_declaration hdecl] at hsome
  simp at hsome

/-- The first recognized node on the climb is the innermost one around the offset. -/
lemma innermost?_of_climb {n : Place} {t : Test} {before after : List Place} (h : src.WellNested)
    (hdecl : decl ∈ declarations src) (hcovers : decl.place.node.covers offset = true)
    (hleaf : src.leafAt offset = some leaf) (hsplit : climb decl leaf = before ++ n :: after)
    (hn : s.test? src n = some t) (hbefore : ∀ x ∈ before, s.test? src x = none) :
    innermost? src decl s offset = some n := by
  obtain ⟨hleafHas, hleafCovers, hbelow⟩ :=
    h.below_leafAt hleaf (mem_declarations hdecl).1 hcovers
  obtain ⟨heq, hclimb⟩ := climb_append hdecl hbelow
  have hway : leaf.selfAndAncestors = before ++ n :: (after ++ decl.place.selfAndAncestors) := by
    rw [heq, hsplit, List.append_assoc, List.cons_append]
  obtain ⟨hnhas, hnleaf⟩ := below_of_mem_selfAndAncestors hleafHas
    (hway ▸ List.mem_append_right before List.mem_cons_self)
  have hnclimb : n ∈ climb decl leaf := hsplit ▸ List.mem_append_right _ List.mem_cons_self
  rw [innermost?_eq_some_iff h hdecl]
  constructor
  · rw [mem_marked]
    exact ⟨hclimb n hnclimb, h.nested.covers_of_below hnhas hnleaf hleafCovers, by simp [hn]⟩
  · intro x hx
    have hmem := mem_climb_of_mem_marked h hdecl hleaf hbelow hx
    rw [hsplit, List.mem_append, List.mem_cons] at hmem
    rcases hmem with hmem | rfl | hmem
    · have hsome := (mem_marked.mp hx).2.2
      rw [hbefore x hmem] at hsome
      simp at hsome
    · exact .refl
    · have habove : x ∈ n.ancestors := eq_ancestors_of_append hway ▸ List.mem_append_left _ hmem
      exact (below_of_mem_selfAndAncestors hnhas (List.mem_cons_of_mem _ habove)).2

lemma findSome?_climb (h : src.WellNested) (hdecl : decl ∈ declarations src)
    (hcovers : decl.place.node.covers offset = true) (hleaf : src.leafAt offset = some leaf) :
    (climb decl leaf).findSome? (s.test? src) =
      (innermost? src decl s offset).bind (s.test? src) := by
  cases hfound : (climb decl leaf).findSome? (s.test? src) with
  | none =>
    have hbelow := (h.below_leafAt hleaf (mem_declarations hdecl).1 hcovers).2.2
    have hnone : innermost? src decl s offset = none := by
      rw [innermost?, List.getLast?_eq_none_iff, List.eq_nil_iff_forall_not_mem]
      intro x hx
      have hsome := (mem_marked.mp hx).2.2
      have hclimb := mem_climb_of_mem_marked h hdecl hleaf hbelow hx
      rw [List.findSome?_eq_none_iff.mp hfound x hclimb] at hsome
      simp at hsome
    rw [hnone, Option.bind_none]
  | some t =>
    obtain ⟨before, n, after, hsplit, hn, hbefore⟩ := List.findSome?_eq_some_iff.mp hfound
    rw [innermost?_of_climb h hdecl hcovers hleaf hsplit hn hbefore, Option.bind_some, hn]

/-- The test at an offset is that of the innermost recognized node; the shortcut through the leaf
finds no other. -/
theorem testAt?_eq (h : src.WellNested) (hdecl : decl ∈ declarations src)
    (hcovers : decl.place.node.covers offset = true) :
    testAt? src decl s offset = (innermost? src decl s offset).bind (s.test? src) := by
  obtain ⟨leaf, hleaf⟩ := h.leafAt_isSome (mem_declarations hdecl).1 hcovers
  have hhas := (h.below_leafAt hleaf (mem_declarations hdecl).1 hcovers).1
  have hclimb := findSome?_climb (s := s) h hdecl hcovers hleaf
  rw [testAt?, hleaf, Option.bind_some, ← hclimb]
  -- The shortcut goes first, so it must agree with the climb where it finds a test.
  cases ht : s.testAtToken? src leaf with
  | none => rfl
  | some t => rw [findSome?_climb_of_token hdecl hhas ht, Option.some_or]

lemma getLast?_filterMap_of_isSome {α β : Type} {f : α → Option β} {l : List α}
    (h : ∀ a ∈ l, (f a).isSome = true) : (l.filterMap f).getLast? = l.getLast?.bind f := by
  rcases List.eq_nil_or_concat l with rfl | ⟨init, a, rfl⟩
  · rfl
  · obtain ⟨b, hb⟩ := Option.isSome_iff_exists.mp (h a (by simp))
    simp [hb]

/-- The listed tests around an offset are those of the recognized nodes that the walk reaches. -/
lemma filter_allTests (hdecl : decl ∈ declarations src) :
    (specOf src decl s).allTests.filter (·.anchor.contains offset) =
      ((visit bodyNode decl.place).filter (marks src s offset)).filterMap (s.test? src) := by
  rw [allTests_eq hdecl, List.filter_filterMap, List.filterMap_filter]
  apply List.filterMap_congr
  intro p hp
  cases ht : s.test? src p with
  | none => simp
  | some t =>
    have hcontains : t.anchor.contains offset = p.node.covers offset := by
      rw [Style.anchor_of_test? ht]
      rfl
    simp [marks, ht, Option.filter, hcontains]

lemma testAround?_specOf (hdecl : decl ∈ declarations src) :
    (specOf src decl s).testAround? offset =
      ((visit bodyNode decl.place).filter (marks src s offset)).getLast?.bind (s.test? src) := by
  rw [Spec.testAround?, filter_allTests hdecl]
  apply getLast?_filterMap_of_isSome
  intro p hp
  have hmarks := (List.mem_filter.mp hp).2
  rw [marks, Bool.and_eq_true] at hmarks
  exact hmarks.2

lemma mem_marked_of_mem_visit (hp : p ∈ (visit bodyNode decl.place).filter (marks src s offset)) :
    p ∈ marked src decl s offset := by
  obtain ⟨hvisit, hmarks⟩ := List.mem_filter.mp hp
  exact List.mem_filter.mpr ⟨mem_preorder.mpr (mem_visit.mp hvisit).toBelow, hmarks⟩

/-- Of the listed tests around an offset, each lies in those before it. -/
theorem allTests_nested (h : src.WellNested) (hdecl : decl ∈ declarations src) :
    ((specOf src decl s).allTests.filter (·.anchor.contains offset)).Pairwise fun t u =>
      t.anchor.startByte ≤ u.anchor.startByte ∧ u.anchor.endByte ≤ t.anchor.endByte := by
  rw [filter_allTests hdecl, List.pairwise_filterMap]
  apply ((visit_pairwise bodyNode decl.place).filter _).imp_of_mem
  intro p q hp hq hnot t ht u hu
  have hhas := (mem_declarations hdecl).1
  obtain ⟨hdeclp, hpcovers, -⟩ := mem_marked.mp (mem_marked_of_mem_visit hp)
  obtain ⟨hdeclq, hqcovers, -⟩ := mem_marked.mp (mem_marked_of_mem_visit hq)
  have hbelow := (h.nested.below_or_below (hhas.trans hdeclp) (hhas.trans hdeclq) hpcovers
    hqcovers).resolve_right hnot
  rw [Style.anchor_of_test? ht, Style.anchor_of_test? hu]
  exact h.nested.range_le (hhas.trans hdeclp) hbelow

/-- If the innermost recognized node stands in no declaration within the spec's, it is the innermost
listed one. -/
lemma testAround?_eq (h : src.WellNested) (hdecl : decl ∈ declarations src)
    (hinside : ∀ n ∈ innermost? src decl s offset, Inside decl.place n) :
    (specOf src decl s).testAround? offset =
      (innermost? src decl s offset).bind (s.test? src) := by
  have hhas := (mem_declarations hdecl).1
  rw [testAround?_specOf hdecl]
  cases hinnermost : innermost? src decl s offset with
  | none =>
    have hmarked : marked src decl s offset = [] := List.getLast?_eq_none_iff.mp hinnermost
    have hnil : (visit bodyNode decl.place).filter (marks src s offset) = [] := by
      rw [List.eq_nil_iff_forall_not_mem]
      intro x hx
      have hmem := mem_marked_of_mem_visit hx
      rw [hmarked] at hmem
      simp at hmem
    rw [hnil, List.getLast?_nil]
  | some n =>
    obtain ⟨hn, hmax⟩ := (innermost?_eq_some_iff h hdecl).mp hinnermost
    have hplaces : ∀ x ∈ (visit bodyNode decl.place).filter (marks src s offset),
        src.Has x ∧ x.node.covers offset = true := by
      intro x hx
      obtain ⟨hbelow, hcovers, -⟩ := mem_marked.mp (mem_marked_of_mem_visit hx)
      exact ⟨hhas.trans hbelow, hcovers⟩
    have hlast : ((visit bodyNode decl.place).filter (marks src s offset)).getLast? = some n := by
      rw [h.nested.getLast?_eq_some_iff hplaces ((visit_pairwise _ _).filter _)]
      constructor
      · obtain ⟨t, ht⟩ := Option.isSome_iff_exists.mp (mem_marked.mp hn).2.2
        have hreach := (Style.reach_bodyNode_iff h.bareTokens hhas ht).mpr (hinside n hinnermost)
        exact List.mem_filter.mpr ⟨mem_visit.mpr hreach, (List.mem_filter.mp hn).2⟩
      · exact fun x hx => hmax x (mem_marked_of_mem_visit hx)
    rw [hlast]

lemma owner?_eq_some {d : Discovery} (h : d.owner? (declarations src) offset = some (decl, s)) :
    decl ∈ declarations src ∧ decl.place.node.covers offset = true ∧
      d.styleFor? (declarations src) decl = some s := by
  obtain ⟨e, he, heq⟩ := List.exists_of_findSome?_eq_some h
  obtain ⟨style, hstyle, hpair⟩ := Option.map_eq_some_iff.mp heq
  cases hpair
  obtain ⟨hmem, hcovers⟩ := List.mem_filter.mp he
  exact ⟨List.mem_reverse.mp hmem, hcovers, hstyle⟩

/-- The location at an offset names a listed spec. Its test is the innermost listed one around the
offset if the innermost recognized node stands in no declaration within the spec's; otherwise it is
not, as long as ranges tell calls apart. -/
theorem enclosing_agrees_iff {d : Discovery} {loc : Location} (h : src.WellNested)
    (hloc : d.enclosing src offset = some loc) :
    ∃ decl s, decl ∈ declarations src ∧ d.styleFor? (declarations src) decl = some s ∧
      specOf src decl s ∈ d.specs src ∧
      loc.specName = (specOf src decl s).name ∧ loc.specFqn = (specOf src decl s).fqn ∧
      loc.style = (specOf src decl s).style ∧
      ((specOf src decl s).allTests.filter (·.anchor.contains offset)).Pairwise (fun t u =>
        t.anchor.startByte ≤ u.anchor.startByte ∧ u.anchor.endByte ≤ t.anchor.endByte) ∧
      ((∀ n ∈ innermost? src decl s offset, Inside decl.place n) →
        loc.test = (specOf src decl s).testAround? offset) ∧
      (src.DistinctRanges → loc.test = (specOf src decl s).testAround? offset →
        ∀ n ∈ innermost? src decl s offset, Inside decl.place n) := by
  obtain ⟨⟨decl, s⟩, howner, rfl⟩ := Option.map_eq_some_iff.mp hloc
  obtain ⟨hdecl, hcovers, hstyle⟩ := owner?_eq_some howner
  have htest := testAt?_eq (s := s) h hdecl hcovers
  have hspec : specOf src decl s ∈ d.specs src :=
    List.mem_filterMap.mpr ⟨decl, hdecl, by rw [hstyle, Option.map_some]⟩
  refine ⟨decl, s, hdecl, hstyle, hspec, rfl, rfl, rfl, allTests_nested h hdecl, ?_, ?_⟩
  · intro hinside
    exact htest.trans (testAround?_eq h hdecl hinside).symm
  · -- A test that is listed was recognized inside the declaration, and its anchor names the node.
    intro hdistinct heq n hn
    have hhas := (mem_declarations hdecl).1
    obtain ⟨hbelow, -, hsome⟩ :=
      mem_marked.mp ((innermost?_eq_some_iff h hdecl).mp hn).1
    obtain ⟨t, ht⟩ := Option.isSome_iff_exists.mp hsome
    have hlisted : (specOf src decl s).testAround? offset = some t := by
      rw [← heq]
      dsimp only
      rw [htest, Option.mem_def.mp hn, Option.bind_some, ht]
    have hmem := (List.mem_filter.mp (List.mem_of_getLast? hlisted)).1
    obtain ⟨m, hm, hmt⟩ := (mem_allTests h hdecl).mp hmem
    rw [Style.eq_of_anchor_eq hdistinct (hhas.trans hbelow) (hhas.trans hm.toBelow) ht hmt rfl]
    exact hm

end Discovery

/-- At the container, the location has the listed test. -/
theorem enclosing_agrees_at_container : hiddenTest.WellNested ∧
    ∃ loc decl s, (Discovery.ofConfig .standard).enclosing hiddenTest 64 = some loc ∧
      Discovery.specOf hiddenTest decl s ∈ (Discovery.ofConfig .standard).specs hiddenTest ∧
      ((∀ n ∈ Discovery.innermost? hiddenTest decl s 64, Inside decl.place n) →
        loc.test = (Discovery.specOf hiddenTest decl s).testAround? 64) := by
  have hsome : ((Discovery.ofConfig .standard).enclosing hiddenTest 64).isSome = true := by
    decide +kernel
  obtain ⟨loc, hloc⟩ := Option.isSome_iff_exists.mp hsome
  obtain ⟨decl, s, -, -, hspec, -, -, -, -, hagrees, -⟩ :=
    Discovery.enclosing_agrees_iff hiddenTest_wellNested hloc
  exact ⟨hiddenTest_wellNested, loc, decl, s, hloc, hspec, hagrees⟩

/-- Inside the class, the location has a test that no spec of the file lists. -/
theorem enclosing_unlisted_in_class : hiddenTest.WellNested ∧
    ∃ t ∈ ((Discovery.ofConfig .standard).enclosing hiddenTest 107).bind (·.test),
      ∀ spec ∈ (Discovery.ofConfig .standard).specs hiddenTest, t ∉ spec.allTests :=
  ⟨hiddenTest_wellNested, by decide +kernel⟩

end SpecLens
