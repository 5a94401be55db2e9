import Mathlib.Data.List.Perm.Basic
import SpecLens.Proofs.Spec.Listing
import SpecLens.Proofs.Style.Registry
import SpecLens.Proofs.Tree.Anchor

/-!
# Markers and listed tests

Markers come from the tokens of a declaration that is found again through the anchor of its spec,
lists from a walk through the declaration itself. This file shows that both name the same tests,
each once.
-/

namespace SpecLens

open Kotlin Place

/-- What the grammar promises of the names of declarations: each is a token with a text, and no
declaration itself. -/
def Source.TokenNames (src : Source) : Prop :=
  ∀ p ∈ src.rootPlace.preorder, isDeclaration p.node = true → ∀ n ∈ declarationName? p,
    n.start < n.stop ∧ n.node.children = [] ∧ isDeclaration n.node = false

namespace Discovery

variable {src : Source} {decl : Declaration} {s : Style} {t : Test}

lemma nameNode_mem_children {n : Place} (hdecl : decl ∈ declarations src)
    (hn : decl.nameNode = some n) : n ∈ decl.place.children := by
  rw [(mem_declarations hdecl).2.2] at hn
  rcases Option.or_eq_some_iff.mp hn with hn | ⟨-, hn⟩
  · exact List.mem_of_find?_eq_some hn
  · exact mem_children_of_mem_namedChildren (List.mem_of_find?_eq_some hn)

lemma nameNode_spec {n : Place} (hnames : src.TokenNames) (hdecl : decl ∈ declarations src)
    (hn : decl.nameNode = some n) :
    src.Has n ∧ n.start < n.stop ∧ n.node.children = [] ∧ isDeclaration n.node = false := by
  obtain ⟨hhas, hkind, hname⟩ := mem_declarations hdecl
  have htoken := hnames decl.place (mem_preorder.mpr hhas) hkind n (hname ▸ hn)
  exact ⟨hhas.child (nameNode_mem_children hdecl hn) rfl, htoken⟩

lemma eq_declaration_of_range (hdistinct : src.DistinctRanges) (hdecl : decl ∈ declarations src)
    {p : Place} (hp : src.Has p) (hkind : (isCall p || isDeclaration p.node) = true)
    (hstart : p.start = decl.place.start) (hstop : p.stop = decl.place.stop) : p = decl.place := by
  obtain ⟨hhas, hdeclKind, -⟩ := mem_declarations hdecl
  have hpath := hdistinct p (mem_preorder.mpr hp) hkind decl.place (mem_preorder.mpr hhas)
    (by simp [hdeclKind]) hstart hstop
  exact eq_of_path_eq hp hhas hpath

lemma isDeclaration_of_kind_eq {p q : Place} (h : p.kind = q.kind)
    (hq : isDeclaration q.node = true) : isDeclaration p.node = true := by
  rw [isDeclaration, show p.node.kind = q.node.kind from h]
  exact hq

lemma find?_declaration (hdecl : decl ∈ declarations src) :
    decl.place.selfAndAncestors.find? (isDeclaration ·.node) = some decl.place := by
  simp [selfAndAncestors, (mem_declarations hdecl).2.1]

lemma anchor_unnamed (hname : decl.nameNode = none) :
    (specOf src decl s).anchor = src.anchorOf decl.place := by
  simp [specOf, anchorPlace, hname]

/-- A spec whose declaration has a text is led back to this declaration. -/
lemma declarationOf?_specOf (h : src.WellNested) (hnames : src.TokenNames)
    (hdistinct : src.DistinctRanges) (hdecl : decl ∈ declarations src)
    (hlt : decl.place.start < decl.place.stop) :
    Marker.declarationOf? src (specOf src decl s) = some decl.place := by
  obtain ⟨hhas, hkind, -⟩ := mem_declarations hdecl
  cases hname : decl.nameNode with
  | none =>
    have hresolve : src.resolve decl.place.kind decl.place.start decl.place.stop =
        some decl.place := by
      apply h.nested.resolve_eq hhas hlt
      intro x hx hxkind hstart hstop
      have hxdecl := isDeclaration_of_kind_eq hxkind hkind
      exact eq_declaration_of_range hdistinct hdecl (hhas.trans hx) (by simp [hxdecl]) hstart hstop
    rw [Marker.declarationOf?, anchor_unnamed hname, Source.anchorOf, hresolve, Option.bind_some,
      find?_declaration hdecl]
  | some n =>
    have hanchor : (specOf src decl s).anchor = src.anchorOf n := by
      simp [specOf, anchorPlace, hname]
    obtain ⟨hn, hwide, hleaf, hplain⟩ := nameNode_spec hnames hdecl hname
    have hresolve : src.resolve n.kind n.start n.stop = some n :=
      h.nested.resolve_eq hn hwide fun x hx _ _ _ => eq_of_below_token hleaf hx
    have hparent := parent_of_mem_children (nameNode_mem_children hdecl hname)
    rw [Marker.declarationOf?, hanchor, Source.anchorOf, hresolve, Option.bind_some,
      selfAndAncestors, List.find?_cons_of_neg (by simp [hplain]), ancestors_of_parent hparent,
      find?_declaration hdecl]

lemma allTests_eq_nil (h : src.WellNested) (hdistinct : src.DistinctRanges)
    (hdecl : decl ∈ declarations src) (hlt : ¬decl.place.start < decl.place.stop) :
    (specOf src decl s).allTests = [] := by
  obtain ⟨hhas, -, -⟩ := mem_declarations hdecl
  rw [List.eq_nil_iff_forall_not_mem]
  intro t ht
  obtain ⟨n, hn, hnt⟩ := (mem_allTests h hdecl).mp ht
  have hcall := Style.isCall_of_test? hnt
  have hrange := h.nested.range_le hhas hn.toBelow
  have hordered := h.ranged n (mem_preorder.mpr (hhas.trans hn.toBelow))
  have hstart : n.start = decl.place.start := by omega
  have hstop : n.stop = decl.place.stop := by omega
  have heq := eq_declaration_of_range hdistinct hdecl (hhas.trans hn.toBelow) (by simp [hcall])
    hstart hstop
  rw [heq, test?_declaration hdecl] at hnt
  simp at hnt

/-- A spec is led back to its declaration or nowhere, and the latter only if it has no tests. -/
lemma declarationOf?_cases (h : src.WellNested) (hnames : src.TokenNames)
    (hdistinct : src.DistinctRanges) (hdecl : decl ∈ declarations src) :
    Marker.declarationOf? src (specOf src decl s) = some decl.place ∨
      Marker.declarationOf? src (specOf src decl s) = none ∧ (specOf src decl s).allTests = [] := by
  obtain ⟨hhas, hkind, -⟩ := mem_declarations hdecl
  by_cases hlt : decl.place.start < decl.place.stop
  · exact .inl (declarationOf?_specOf h hnames hdistinct hdecl hlt)
  -- Such a declaration has no name, and the search for its empty range may miss it.
  have hname : decl.nameNode = none := by
    rw [Option.eq_none_iff_forall_ne_some]
    intro n hn
    have hwide := (nameNode_spec hnames hdecl hn).2.1
    have hinside := h.nested.range_le hhas (below_of_mem_children (nameNode_mem_children hdecl hn))
    omega
  rw [Marker.declarationOf?, anchor_unnamed hname, Source.anchorOf]
  dsimp only
  cases hresolve : src.resolve decl.place.kind decl.place.start decl.place.stop with
  | none => exact .inr ⟨rfl, allTests_eq_nil h hdistinct hdecl hlt⟩
  | some p =>
    left
    obtain ⟨hp, hpkind, hstart, hstop⟩ := Source.has_of_resolve_eq_some hresolve
    have hpdecl := isDeclaration_of_kind_eq hpkind hkind
    rw [eq_declaration_of_range hdistinct hdecl hp (by simp [hpdecl]) hstart hstop,
      Option.bind_some, find?_declaration hdecl]

/-! ### The tests of the tokens -/

/-- A token inside a declaration leads to a node inside it. -/
lemma inside_of_testAtToken? {token : Place} (hdecl : decl ∈ declarations src)
    (htoken : Inside decl.place token) (ht : s.testAtToken? src token = some t) :
    ∃ n, Inside decl.place n ∧ s.test? src n = some t := by
  obtain ⟨hhas, hkind, -⟩ := mem_declarations hdecl
  have hhasToken := hhas.trans htoken.toBelow
  obtain ⟨hinner, n, between, hway, hn, hbetween⟩ := Style.testAtToken?_eq_some hhasToken ht
  have hntoken : n ∈ token.selfAndAncestors := by
    rw [selfAndAncestors, hway]
    exact List.mem_cons_of_mem _ (List.mem_append_right _ List.mem_cons_self)
  have hplain {x : Place} (hx : isDeclaration x.node = false) : decl.place ≠ x := by
    rintro rfl
    rw [hx] at hkind
    simp at hkind
  have hdecln : decl.place ∈ n.selfAndAncestors := by
    have hmem := htoken.mem_selfAndAncestors
    rw [selfAndAncestors, hway, List.mem_cons, List.mem_append] at hmem
    rcases hmem with hmem | hmem | hmem
    · simp only [isInner, Bool.and_eq_true, Bool.not_eq_true'] at hinner
      exact (hplain hinner.2 hmem).elim
    · exact (hplain (hbetween _ hmem).1 rfl).elim
    · exact hmem
  obtain ⟨hnhas, hnbelow⟩ := below_of_mem_selfAndAncestors hhasToken hntoken
  have hbelow := (below_of_mem_selfAndAncestors hnhas hdecln).2
  exact ⟨n, htoken.of_below hbelow hnbelow, hn⟩

/-- The brace of a recognized node inside a declaration is a token of the declaration. -/
lemma brace_mem_tokens {n : Place} (h : src.WellNested) (hbraced : src.BracedLambdas)
    (hdecl : decl ∈ declarations src) (hinside : Inside decl.place n)
    (hn : s.test? src n = some t) :
    ∃ brace ∈ Marker.tokens decl.place, s.testAtToken? src brace = some t := by
  have hhas := (mem_declarations hdecl).1
  obtain ⟨brace, -, hcall, htoken, hbrace⟩ :=
    (Style.hasBlock_of_test? hn).openingBrace? hbraced (hhas.trans hinside.toBelow)
  have hway := hinside.trans hbrace
  have hanonymous : brace.named = false := by
    simp only [isToken, Bool.and_eq_true, Bool.not_eq_true'] at htoken
    exact htoken.1
  have hleaf := h.tokens brace (mem_preorder.mpr (hhas.trans hway.toBelow)) (.inl hanonymous)
  refine ⟨brace, Marker.mem_tokens.mpr ⟨hway, hleaf⟩, ?_⟩
  rw [Style.testAtToken?, hcall]
  exact hn

/-- The tokens of a declaration lead to its listed tests and to nothing else. -/
theorem mem_tests_of_tokens (h : src.WellNested) (hbraced : src.BracedLambdas)
    (hdecl : decl ∈ declarations src) :
    t ∈ (Marker.tokens decl.place).filterMap (s.testAtToken? src) ↔
      t ∈ (specOf src decl s).allTests := by
  rw [mem_allTests h hdecl, List.mem_filterMap]
  constructor
  · rintro ⟨token, htoken, ht⟩
    exact inside_of_testAtToken? hdecl (Marker.mem_tokens.mp htoken).1 ht
  · rintro ⟨n, hinside, hn⟩
    exact brace_mem_tokens h hbraced hdecl hinside hn

end Discovery

namespace Marker

lemma mem_of_mem_distinctTests {tests : List Test} {t : Test} (h : t ∈ distinctTests tests) :
    t ∈ tests := by
  induction tests with
  | nil => exact h
  | cons u rest ih =>
    rcases List.mem_cons.mp h with rfl | h
    · exact List.mem_cons_self
    · exact List.mem_cons_of_mem _ (ih (List.mem_filter.mp h).1)

lemma mem_distinctTests {tests : List Test}
    (h : ∀ t ∈ tests, ∀ u ∈ tests, t.anchor = u.anchor → t = u) {t : Test} :
    t ∈ distinctTests tests ↔ t ∈ tests := by
  refine ⟨mem_of_mem_distinctTests, fun ht => ?_⟩
  induction tests with
  | nil => exact ht
  | cons u rest ih =>
    rw [distinctTests, List.mem_cons]
    by_cases hanchor : t.anchor = u.anchor
    · exact .inl (h t ht u List.mem_cons_self hanchor)
    · right
      have hrest : t ∈ rest := (List.mem_cons.mp ht).resolve_left fun heq => hanchor (heq ▸ rfl)
      have hih := ih (fun a ha b hb => h a (List.mem_cons_of_mem _ ha) b (List.mem_cons_of_mem _ hb))
        hrest
      exact List.mem_filter.mpr ⟨hih, by simpa using hanchor⟩

lemma distinctTests_pairwise (tests : List Test) :
    (distinctTests tests).Pairwise fun t u => t.anchor ≠ u.anchor := by
  induction tests with
  | nil => exact .nil
  | cons t rest ih =>
    rw [distinctTests, List.pairwise_cons]
    refine ⟨fun u hu heq => ?_, ih.filter _⟩
    have hne := (List.mem_filter.mp hu).2
    simp [heq] at hne

lemma nodup_of_anchors {tests : List Test}
    (h : tests.Pairwise fun t u => t.anchor ≠ u.anchor) : tests.Nodup :=
  h.imp fun hne heq => hne (congrArg Test.anchor heq)

/-! ### Order -/

lemma before_trans (a b c : Marker) (hab : before a b = true) (hbc : before b c = true) :
    before a c = true := by
  simp only [before, Bool.or_eq_true, Bool.and_eq_true, decide_eq_true_eq, beq_iff_eq, bne_iff_ne]
    at *
  rcases hab with hab | ⟨hab, hkind⟩
  · rcases hbc with hbc | ⟨hbc, -⟩
    · exact .inl (by omega)
    · exact .inl (by omega)
  · rcases hbc with hbc | ⟨hbc, hkind'⟩
    · exact .inl (by omega)
    · right
      refine ⟨by omega, ?_⟩
      rcases hkind with hkind | hkind
      · exact .inl hkind
      · exact .inr (hkind'.resolve_left hkind)

lemma before_total (a b : Marker) : (before a b || before b a) = true := by
  simp only [before, Bool.or_eq_true, Bool.and_eq_true, decide_eq_true_eq, beq_iff_eq, bne_iff_ne]
  by_cases hkind : a.kind = .spec
  · simp only [hkind, true_or, and_true]
    omega
  · simp only [hkind, false_or, ne_eq, not_false_eq_true, or_true, and_true]
    omega

lemma startByte_le_of_before {a b : Marker} (h : before a b = true) :
    a.anchor.startByte ≤ b.anchor.startByte := by
  simp only [before, Bool.or_eq_true, Bool.and_eq_true, decide_eq_true_eq, beq_iff_eq] at h
  omega

end Marker

namespace Discovery

variable {src : Source} {decl decl' : Declaration} {s s' : Style} {c : DiscoveryConfig}

lemma allTests_pairwise (hdistinct : src.DistinctRanges) (hdecl : decl ∈ declarations src) :
    (specOf src decl s).allTests.Pairwise fun t u => t.anchor ≠ u.anchor := by
  have hhas := (mem_declarations hdecl).1
  rw [allTests_eq hdecl, List.pairwise_filterMap]
  apply (visit_nodup bodyNode decl.place).imp_of_mem
  intro p q hp hq hne t ht u hu heq
  exact hne (Style.eq_of_anchor_eq hdistinct (hhas.trans (mem_visit.mp hp).toBelow)
    (hhas.trans (mem_visit.mp hq).toBelow) ht hu heq)

/-- The tests that the tokens of a spec lead to are the listed ones. -/
theorem testsOf_perm {r : Registry} (h : src.WellNested) (hbraced : src.BracedLambdas)
    (hnames : src.TokenNames) (hdistinct : src.DistinctRanges) (hdecl : decl ∈ declarations src)
    (hs : r.byName? s.name = some s) :
    (Marker.testsOf r src (specOf src decl s)).Perm (specOf src decl s).allTests := by
  have hstyle : (specOf src decl s).style = s.name := rfl
  have hlisted := allTests_pairwise (s := s) hdistinct hdecl
  rcases declarationOf?_cases (s := s) h hnames hdistinct hdecl with hbody | ⟨hbody, hnil⟩
  · rw [Marker.testsOf, hstyle, hs, hbody]
    dsimp only
    apply (List.perm_ext_iff_of_nodup
      (Marker.nodup_of_anchors (Marker.distinctTests_pairwise _))
      (Marker.nodup_of_anchors hlisted)).mpr
    intro t
    rw [Marker.mem_distinctTests, mem_tests_of_tokens h hbraced hdecl]
    intro t ht u hu heq
    rw [mem_tests_of_tokens h hbraced hdecl, mem_allTests h hdecl] at ht hu
    obtain ⟨n, hn, hnt⟩ := ht
    obtain ⟨m, hm, hmu⟩ := hu
    have hhas := (mem_declarations hdecl).1
    have hnm := Style.eq_of_anchor_eq hdistinct (hhas.trans hn.toBelow) (hhas.trans hm.toBelow)
      hnt hmu heq
    rw [hnm, hmu] at hnt
    exact (Option.some.inj hnt).symm
  · rw [Marker.testsOf, hstyle, hs, hbody, hnil]

/-- A recognized node stands inside one declaration at most. -/
lemma eq_of_inside_both {n : Place} {t : Test} (hdecl : decl ∈ declarations src)
    (hdecl' : decl' ∈ declarations src) (hn : Inside decl.place n) (hn' : Inside decl'.place n)
    (ht : s.test? src n = some t) : decl.place = decl'.place := by
  have hplain := Style.not_isDeclaration_of_test? ht
  have hnearest := enclosingDeclaration?_of_inside hn (mem_declarations hdecl).2.1 hplain
  have hnearest' := enclosingDeclaration?_of_inside hn' (mem_declarations hdecl').2.1 hplain
  exact Option.some.inj (hnearest.symm.trans hnearest')

lemma nameNode_ne_declaration {n : Place} (hnames : src.TokenNames)
    (hdecl : decl ∈ declarations src) (hdecl' : decl' ∈ declarations src)
    (hn : decl.nameNode = some n) : src.anchorOf n ≠ src.anchorOf decl'.place := by
  intro heq
  have hplain := (nameNode_spec hnames hdecl hn).2.2.2
  have hkind : n.node.kind = decl'.place.node.kind := congrArg Anchor.kind heq
  rw [isDeclaration, hkind] at hplain
  have := (mem_declarations hdecl').2.1
  rw [isDeclaration, hplain] at this
  simp at this

/-- Anchors tell specs apart. -/
lemma eq_of_spec_anchor_eq (h : src.WellNested) (hnames : src.TokenNames)
    (hdistinct : src.DistinctRanges) (hdecl : decl ∈ declarations src)
    (hdecl' : decl' ∈ declarations src)
    (heq : src.anchorOf (anchorPlace decl) = src.anchorOf (anchorPlace decl')) :
    decl.place = decl'.place := by
  obtain ⟨hhas, hkind, -⟩ := mem_declarations hdecl
  simp only [anchorPlace] at heq
  cases hname : decl.nameNode with
  | none =>
    cases hname' : decl'.nameNode with
    | none =>
      rw [hname, hname', Option.getD_none, Option.getD_none] at heq
      exact eq_declaration_of_range hdistinct hdecl' hhas (by simp [hkind])
        (congrArg Anchor.startByte heq) (congrArg Anchor.endByte heq)
    | some n' =>
      rw [hname, hname', Option.getD_none, Option.getD_some] at heq
      exact (nameNode_ne_declaration hnames hdecl' hdecl hname' heq.symm).elim
  | some n =>
    cases hname' : decl'.nameNode with
    | none =>
      rw [hname, hname', Option.getD_some, Option.getD_none] at heq
      exact (nameNode_ne_declaration hnames hdecl hdecl' hname heq).elim
    | some n' =>
      rw [hname, hname', Option.getD_some, Option.getD_some] at heq
      obtain ⟨hn, hwide, hleaf, -⟩ := nameNode_spec hnames hdecl hname
      obtain ⟨hn', -, hleaf', -⟩ := nameNode_spec hnames hdecl' hname'
      have hstart : n.start = n'.start := congrArg Anchor.startByte heq
      have hstop : n.stop = n'.stop := congrArg Anchor.endByte heq
      have hcovers : n.node.covers n.start = true := covers_iff.mpr (by omega)
      have hcovers' : n'.node.covers n.start = true := covers_iff.mpr (by omega)
      have hnn : n = n' := by
        rcases h.nested.below_or_below hn hn' hcovers hcovers' with hbelow | hbelow
        · exact (eq_of_below_token hleaf hbelow).symm
        · exact eq_of_below_token hleaf' hbelow
      have hparent := parent_of_mem_children (nameNode_mem_children hdecl hname)
      have hparent' := parent_of_mem_children (nameNode_mem_children hdecl' hname')
      rw [hnn, hparent'] at hparent
      exact (Option.some.inj hparent).symm

end Discovery

/-- A marker for a spec and one for each of its tests. -/
def Spec.listedMarkers (s : Spec) : List Marker :=
  ⟨.spec, s.fqn, s.fqn, s.anchor.line, s.anchor⟩ :: s.allTests.map fun t =>
    ⟨if t.disabled then .disabled else .run, t.readablePath, s.fqn, t.anchor.line, t.anchor⟩

namespace Discovery

variable {src : Source} {decl decl' : Declaration} {s s' : Style} {c : DiscoveryConfig}

lemma mem_specs {d : Discovery} {spec : Spec} (hspec : spec ∈ d.specs src) :
    ∃ decl ∈ declarations src, ∃ s ∈ d.registry.styles, spec = specOf src decl s := by
  rw [specs_eq_map_owners] at hspec
  obtain ⟨⟨decl, s⟩, ho, rfl⟩ := List.mem_map.mp hspec
  obtain ⟨hdecl, hs⟩ := mem_owners.mp ho
  exact ⟨decl, hdecl, s, List.mem_of_find?_eq_some hs, rfl⟩

lemma listedMarkers_nodup (hdistinct : src.DistinctRanges) (hdecl : decl ∈ declarations src) :
    (specOf src decl s).listedMarkers.Nodup := by
  rw [Spec.listedMarkers, List.nodup_cons]
  constructor
  · intro hmem
    obtain ⟨t, -, ht⟩ := List.mem_map.mp hmem
    have hkind := congrArg Marker.kind ht
    cases hdisabled : t.disabled <;> simp [hdisabled] at hkind
  · rw [List.Nodup, List.pairwise_map]
    refine (allTests_pairwise hdistinct hdecl).imp fun hne heq => ?_
    exact hne (congrArg Marker.anchor heq)

lemma listedMarkers_disjoint (h : src.WellNested) (hnames : src.TokenNames)
    (hdistinct : src.DistinctRanges) (hdecl : decl ∈ declarations src)
    (hdecl' : decl' ∈ declarations src) (hne : decl.place ≠ decl'.place) :
    (specOf src decl s).listedMarkers.Disjoint (specOf src decl' s').listedMarkers := by
  intro marker hm hm'
  rcases List.mem_cons.mp hm with rfl | hm
  · rcases List.mem_cons.mp hm' with heq | hm'
    · exact hne (eq_of_spec_anchor_eq h hnames hdistinct hdecl hdecl' (congrArg Marker.anchor heq))
    · obtain ⟨t, -, ht⟩ := List.mem_map.mp hm'
      have hkind := congrArg Marker.kind ht
      cases hdisabled : t.disabled <;> simp [hdisabled] at hkind
  · obtain ⟨t, ht, rfl⟩ := List.mem_map.mp hm
    rcases List.mem_cons.mp hm' with heq | hm'
    · have hkind := congrArg Marker.kind heq
      cases hdisabled : t.disabled <;> simp [hdisabled] at hkind
    · obtain ⟨u, hu, heq⟩ := List.mem_map.mp hm'
      obtain ⟨n, hn, hnt⟩ := (mem_allTests h hdecl).mp ht
      obtain ⟨m, hm, hmu⟩ := (mem_allTests h hdecl').mp hu
      have hnm := Style.eq_of_anchor_eq hdistinct ((mem_declarations hdecl).1.trans hn.toBelow)
        ((mem_declarations hdecl').1.trans hm.toBelow) hnt hmu (congrArg Marker.anchor heq).symm
      exact hne (eq_of_inside_both hdecl hdecl' hn (hnm ▸ hm) hnt)

lemma flatMap_listedMarkers_nodup (h : src.WellNested) (hnames : src.TokenNames)
    (hdistinct : src.DistinctRanges) (d : Discovery) :
    ((d.specs src).flatMap Spec.listedMarkers).Nodup := by
  rw [specs_eq_map_owners, List.flatMap_map, List.nodup_flatMap]
  constructor
  · rintro ⟨decl, s⟩ ho
    exact listedMarkers_nodup hdistinct (mem_owners.mp ho).1
  · apply (owners_pairwise d src).imp_of_mem
    rintro ⟨decl, s⟩ ⟨decl', s'⟩ ho ho' hne
    exact listedMarkers_disjoint h hnames hdistinct (mem_owners.mp ho).1 (mem_owners.mp ho').1 hne

/-- The markers of a file are those of its specs and of the tests these list, each once, by
position. -/
theorem markers_perm_listed (c : DiscoveryConfig) (h : src.WellNested)
    (hbraced : src.BracedLambdas) (hnames : src.TokenNames) (hdistinct : src.DistinctRanges) :
    ((ofConfig c).markers src).Perm (((ofConfig c).specs src).flatMap Spec.listedMarkers) ∧
      ((ofConfig c).markers src).Nodup ∧
      ((ofConfig c).markers src).Pairwise fun a b => a.anchor.startByte ≤ b.anchor.startByte := by
  have hrows : ∀ spec ∈ (ofConfig c).specs src,
      (Marker.ofSpec spec :: (Marker.testsOf (ofConfig c).registry src spec).map
        (Marker.ofTest spec)).Perm spec.listedMarkers := by
    intro spec hspec
    obtain ⟨decl, hdecl, s, hs, rfl⟩ := mem_specs hspec
    have hname : (ofConfig c).registry.byName? s.name = some s := Registry.byName?_name hs
    exact ((testsOf_perm h hbraced hnames hdistinct hdecl hname).map _).cons _
  have hperm : ((ofConfig c).markers src).Perm
      (((ofConfig c).specs src).flatMap Spec.listedMarkers) :=
    (List.mergeSort_perm _ _).trans (List.Perm.flatMap_left _ hrows)
  refine ⟨hperm, ?_, ?_⟩
  · exact hperm.nodup_iff.mpr (flatMap_listedMarkers_nodup h hnames hdistinct _)
  · apply (List.pairwise_mergeSort Marker.before_trans Marker.before_total _).imp
    exact Marker.startByte_le_of_before

end Discovery

lemma hiddenTest_bracedLambdas : hiddenTest.BracedLambdas := by
  unfold Source.BracedLambdas
  decide

lemma hiddenTest_tokenNames : hiddenTest.TokenNames := by
  unfold Source.TokenNames
  decide

lemma hiddenTest_distinctRanges : hiddenTest.DistinctRanges := by
  unfold Source.DistinctRanges
  decide +kernel

/-- The spec and its container are marked, the test in the class is not. -/
theorem markers_of_hiddenTest : hiddenTest.WellNested ∧ hiddenTest.BracedLambdas ∧
    hiddenTest.TokenNames ∧ hiddenTest.DistinctRanges ∧
    ((Discovery.ofConfig .standard).markers hiddenTest).length = 2 := by
  have hlisted : (((Discovery.ofConfig .standard).specs hiddenTest).flatMap
      Spec.listedMarkers).length = 2 := by
    decide +kernel
  have hperm := (Discovery.markers_perm_listed .standard hiddenTest_wellNested
    hiddenTest_bracedLambdas hiddenTest_tokenNames hiddenTest_distinctRanges).1
  exact ⟨hiddenTest_wellNested, hiddenTest_bracedLambdas, hiddenTest_tokenNames,
    hiddenTest_distinctRanges, hperm.length_eq.trans hlisted⟩

end SpecLens
