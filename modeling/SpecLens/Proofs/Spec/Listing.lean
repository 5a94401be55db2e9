import SpecLens.Proofs.Spec.Body
import SpecLens.Proofs.Style.Registry

/-!
# What a spec lists

The search for tests nests what it finds, goes on through nodes that declare nothing and passes over
nested declarations. Flattened again, its result is a filter of the whole tree: the recognized nodes
whose nearest declaration is that of the spec, in source order. No node is lost, none comes twice,
and none belongs to two specs.
-/

namespace SpecLens

open Kotlin Place

namespace Kotlin

/-- The nearest class or object around a place. -/
def enclosingDeclaration? (p : Place) : Option Place := p.ancestors.find? (isDeclaration ·.node)

lemma enclosingDeclaration?_of_inside {p q : Place} (h : Inside p q)
    (hp : isDeclaration p.node = true) (hplain : isDeclaration q.node = false) :
    enclosingDeclaration? q = some p := by
  obtain ⟨between, heq, hbetween⟩ := h.selfAndAncestors_eq
  cases between with
  | nil =>
    have hpq : q = p := (List.cons.inj heq).1
    rw [hpq, hp] at hplain
    simp at hplain
  | cons x between =>
    have hway : q.ancestors = between ++ p :: p.ancestors := (List.cons.inj heq).2
    rw [enclosingDeclaration?, List.find?_eq_some_iff_append]
    exact ⟨hp, between, p.ancestors, hway, fun y hy => (hbetween y (List.mem_cons_of_mem _ hy)).2.2⟩

lemma enclosingDeclaration?_eq_some_iff {n : Node} {p q : Place} (hq : Below (root n) q)
    (hp : isDeclaration p.node = true) (hplain : isDeclaration q.node = false) :
    enclosingDeclaration? q = some p ↔ Inside p q := by
  constructor
  · intro h
    obtain ⟨-, before, after, heq, hbefore⟩ := List.find?_eq_some_iff_append.mp h
    have hway : q.selfAndAncestors = (q :: before) ++ p :: after := by
      rw [selfAndAncestors, heq, List.cons_append]
    obtain ⟨hproot, hpq⟩ :=
      below_of_mem_selfAndAncestors hq (hway ▸ List.mem_append_right _ List.mem_cons_self)
    -- What stands between both comes before the declaration on the way up.
    apply Reach.of_forall hpq
    intro x hpx hne hxq
    have hmem := hway ▸ hxq.mem_selfAndAncestors
    rw [List.mem_append, List.mem_cons, List.mem_cons] at hmem
    rcases hmem with (rfl | hx) | rfl | hx
    · simp [hplain]
    · exact hbefore x hx
    · exact (hne rfl).elim
    · rw [eq_ancestors_of_append hway] at hx
      have hxp := (below_of_mem_selfAndAncestors hproot (List.mem_cons_of_mem _ hx)).2
      exact (hne (hxp.antisymm hpx)).elim
  · exact fun h => enclosingDeclaration?_of_inside h hp hplain

end Kotlin

namespace Discovery

variable {d : Discovery} {src : Source} {decl : Declaration} {s : Style} {n : Place}

/-- The specs of a file, each as its declaration and the style that owns it. -/
def owners (d : Discovery) (src : Source) : List (Declaration × Style) :=
  (declarations src).filterMap fun decl => (d.styleFor? (declarations src) decl).map (decl, ·)

lemma mem_owners : (decl, s) ∈ d.owners src ↔
    decl ∈ declarations src ∧ d.styleFor? (declarations src) decl = some s := by
  simp only [owners, List.mem_filterMap, Option.map_eq_some_iff, Prod.mk.injEq]
  constructor
  · rintro ⟨e, he, t, ht, rfl, rfl⟩
    exact ⟨he, ht⟩
  · rintro ⟨hdecl, hs⟩
    exact ⟨decl, hdecl, s, hs, rfl, rfl⟩

/-- A configuration knows no styles but the built-in ones. -/
lemma mem_builtin_of_mem_owners {c : DiscoveryConfig} (h : (decl, s) ∈ (ofConfig c).owners src) :
    s ∈ Style.builtin :=
  Registry.mem_builtin_of_withDisabled (List.mem_of_find?_eq_some (mem_owners.mp h).2)

lemma specs_eq_map_owners (d : Discovery) (src : Source) :
    d.specs src = (d.owners src).map fun o => specOf src o.1 o.2 := by
  rw [specs, owners, List.map_filterMap]
  simp only [Option.map_map, Function.comp_def]

lemma owners_ordered (d : Discovery) (src : Source) :
    (d.owners src).Pairwise fun o o' => ¬Below o'.1.place o.1.place := by
  rw [owners, List.pairwise_filterMap]
  apply (declarations_ordered src).imp
  intro decl decl' hnot o ho o' ho'
  obtain ⟨s, -, rfl⟩ := Option.map_eq_some_iff.mp ho
  obtain ⟨s', -, rfl⟩ := Option.map_eq_some_iff.mp ho'
  exact hnot

lemma owners_pairwise (d : Discovery) (src : Source) :
    (d.owners src).Pairwise fun o o' => o.1.place ≠ o'.1.place := by
  apply (owners_ordered d src).imp
  intro o o' hnot heq
  rw [heq] at hnot
  exact hnot .refl

/-- The nodes of the file that a style recognizes and whose nearest declaration is the given one. -/
def ownNodes (src : Source) (decl : Declaration) (s : Style) : List Place :=
  src.rootPlace.preorder.filter fun n =>
    (s.test? src n).isSome && (enclosingDeclaration? n).any (·.same decl.place)

lemma any_same_iff (hdecl : decl ∈ declarations src) (hn : src.Has n) :
    (enclosingDeclaration? n).any (·.same decl.place) = true ↔
      enclosingDeclaration? n = some decl.place := by
  rw [Option.any_eq_true]
  constructor
  · rintro ⟨p, hp, hsame⟩
    have hmem : p ∈ n.selfAndAncestors := List.mem_cons_of_mem _ (List.mem_of_find?_eq_some hp)
    have hhas := (below_of_mem_selfAndAncestors hn hmem).1
    rw [hp, (same_iff hhas (mem_declarations hdecl).1).mp hsame]
  · intro h
    exact ⟨decl.place, h, by simp [same]⟩

lemma mem_ownNodes (hdecl : decl ∈ declarations src) : n ∈ ownNodes src decl s ↔
    (s.test? src n).isSome = true ∧ Inside decl.place n := by
  obtain ⟨hhas, hkind, -⟩ := mem_declarations hdecl
  rw [ownNodes, List.mem_filter, mem_preorder, Bool.and_eq_true]
  constructor
  · rintro ⟨hn, hsome, hany⟩
    obtain ⟨t, ht⟩ := Option.isSome_iff_exists.mp hsome
    have hplain := Style.not_isDeclaration_of_test? ht
    exact ⟨hsome, (enclosingDeclaration?_eq_some_iff hn hkind hplain).mp
      ((any_same_iff hdecl hn).mp hany)⟩
  · rintro ⟨hsome, hinside⟩
    obtain ⟨t, ht⟩ := Option.isSome_iff_exists.mp hsome
    have hplain := Style.not_isDeclaration_of_test? ht
    have hn := hhas.trans hinside.toBelow
    exact ⟨hn, hsome, (any_same_iff hdecl hn).mpr
      ((enclosingDeclaration?_eq_some_iff hn hkind hplain).mpr hinside)⟩

lemma ownNodes_nodup (src : Source) (decl : Declaration) (s : Style) :
    (ownNodes src decl s).Nodup :=
  (preorder_nodup _).filter _

/-- The walk through the body of a declaration meets its own nodes in the order of the file. -/
lemma filter_visit_eq_ownNodes (h : src.BareTokens) (hdecl : decl ∈ declarations src) :
    (visit bodyNode decl.place).filter (fun n => (s.test? src n).isSome) =
      ownNodes src decl s := by
  have hhas := (mem_declarations hdecl).1
  have hwalk := (visit_sublist_preorder bodyNode decl.place).trans (preorder_sublist hhas)
  apply filter_eq_filter_of_sublist hwalk (preorder_nodup _)
  intro n
  rw [← ownNodes, mem_ownNodes hdecl, List.mem_filter, mem_visit, and_comm]
  refine and_congr_right fun hsome => ?_
  obtain ⟨t, ht⟩ := Option.isSome_iff_exists.mp hsome
  exact Style.reach_bodyNode_iff h hhas ht

lemma allTests_eq_ownNodes (h : src.BareTokens) (hdecl : decl ∈ declarations src) :
    (specOf src decl s).allTests = (ownNodes src decl s).filterMap (s.test? src) := by
  rw [allTests_eq hdecl, ← filter_visit_eq_ownNodes h hdecl, List.filterMap_filter]
  apply List.filterMap_congr
  intro n _
  cases s.test? src n with
  | none => rfl
  | some t => rfl

lemma length_filterMap_ownNodes (src : Source) (decl : Declaration) (s : Style) :
    ((ownNodes src decl s).filterMap (s.test? src)).length = (ownNodes src decl s).length := by
  rw [List.length_filterMap_eq_countP, List.countP_eq_length]
  intro n hn
  have hmem := (List.mem_filter.mp hn).2
  rw [Bool.and_eq_true] at hmem
  exact hmem.1

lemma ownNodes_disjoint {decl' : Declaration} {s' : Style} (hdecl : decl ∈ declarations src)
    (hdecl' : decl' ∈ declarations src) (hnot : ¬Below decl'.place decl.place) :
    (ownNodes src decl s).Disjoint (ownNodes src decl' s') := by
  intro n hn hn'
  obtain ⟨hhas, hown⟩ := List.mem_filter.mp hn
  obtain ⟨-, hown'⟩ := List.mem_filter.mp hn'
  rw [Bool.and_eq_true] at hown hown'
  have hplace := (any_same_iff hdecl (mem_preorder.mp hhas)).mp hown.2
  have hplace' := (any_same_iff hdecl' (mem_preorder.mp hhas)).mp hown'.2
  rw [Option.some.inj (hplace.symm.trans hplace')] at hnot
  exact hnot .refl

/-- Each spec lists the tests of its own nodes in source order, one for each node, and no node is
among those of two specs. -/
theorem listed_eq_ownNodes (d : Discovery) (h : src.BareTokens) :
    d.specs src = (d.owners src).map (fun o => specOf src o.1 o.2) ∧
    (∀ o ∈ d.owners src,
      (specOf src o.1 o.2).allTests = (ownNodes src o.1 o.2).filterMap (o.2.test? src) ∧
      (specOf src o.1 o.2).testCount = (ownNodes src o.1 o.2).length) ∧
    ((d.owners src).flatMap fun o => ownNodes src o.1 o.2).Nodup := by
  refine ⟨specs_eq_map_owners d src, ?_, ?_⟩
  · rintro ⟨decl, s⟩ ho
    have hlisted := allTests_eq_ownNodes (s := s) h (mem_owners.mp ho).1
    exact ⟨hlisted, by rw [Spec.testCount, hlisted, length_filterMap_ownNodes]⟩
  · rw [List.nodup_flatMap]
    refine ⟨fun o _ => ownNodes_nodup src o.1 o.2, ?_⟩
    apply (owners_ordered d src).imp_of_mem
    rintro ⟨decl, s⟩ ⟨decl', s'⟩ ho ho' hnot
    exact ownNodes_disjoint (mem_owners.mp ho).1 (mem_owners.mp ho').1 hnot

end Discovery

namespace Node

def lambda (start stop : Nat) (body : List Node) : Node :=
  .rule "lambda_literal" start stop (.fixed "\x7b" start :: body ++ [.fixed "\x7d" (stop - 1)])

/-- A call of a name with a string literal and a lambda after a blank. -/
def literalBlock (start argument lambda stop : Nat) (body : List Node) : Node :=
  .rule "call_expression" start stop [
    .rule "call_expression" start (lambda - 1) [
      .identifier start argument, .literalArgument argument (lambda - 1)],
    .rule "annotated_lambda" lambda stop [.lambda lambda stop body]]

/-- A declaration with a name of one letter that extends `FunSpec` with a lambda. -/
def funSpec (kind keyword : String) (start stop : Nat) (body : List Node) : Node :=
  let name := start + keyword.length + 1
  let base := name + 4
  .rule kind start stop [
    .fixed keyword start,
    .title name (name + 1),
    .fixed ":" (name + 2),
    .rule "delegation_specifiers" base stop [
      .rule "delegation_specifier" base stop [
        .rule "constructor_invocation" base stop [
          .rule "user_type" base (base + 7) [.identifier base (base + 7)],
          .rule "value_arguments" (base + 7) stop [
            .fixed "(" (base + 7),
            .rule "value_argument" (base + 8) (stop - 1) [.lambda (base + 8) (stop - 1) body],
            .fixed ")" (stop - 1)]]]]]

end Node

/-- A spec that is declared in a container of another spec. -/
def nestedSpec : Source where
  chars := "import io.kotest.core.spec.style.FunSpec\n".toList ++
    "class S : FunSpec(\x7b\ncontext(\"x\") \x7b\n".toList ++
    " object O : FunSpec(\x7b xcontext(\"k\") \x7b test(\"l\") \x7b \x7d \x7d \x7d)\n".toList ++
    "\x7d\n\x7d)\n".toList
  -- The import is written as in `hiddenTest`.
  root := .rule "source_file" 0 138 (hiddenTest.root.children.take 1 ++ [
    .funSpec "class_declaration" "class" 41 137 [
      .literalBlock 61 68 74 134 [
        .funSpec "object_declaration" "object" 77 132 [
          .literalBlock 98 106 112 129 [.literalBlock 114 118 124 127 []]]]]])

lemma nestedSpec_wellNested : nestedSpec.WellNested where
  inText := by decide +kernel
  ranged := by decide +kernel
  inside := by decide +kernel
  ordered := by decide +kernel
  tokens := by decide +kernel

/-- The spec around lists its container, the spec inside its container and its test. -/
theorem listed_of_nestedSpec : nestedSpec.BareTokens ∧
    ((Discovery.ofConfig .standard).specs nestedSpec).map Spec.testCount = [1, 2] := by
  have hbare := nestedSpec_wellNested.bareTokens
  obtain ⟨hspecs, hlisted, -⟩ := (Discovery.ofConfig .standard).listed_eq_ownNodes hbare
  have hcounts : ((Discovery.ofConfig .standard).owners nestedSpec).map
      (fun o => (Discovery.ownNodes nestedSpec o.1 o.2).length) = [1, 2] := by
    decide +kernel
  refine ⟨hbare, ?_⟩
  rw [hspecs, List.map_map, ← hcounts]
  apply List.map_congr_left
  intro o ho
  exact (hlisted o ho).2

end SpecLens
