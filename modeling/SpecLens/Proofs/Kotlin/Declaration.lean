import SpecLens.Proofs.Spec.Body

/-!
# Declarations and their qualified names

The search for declarations carries along the names of those it is in. Whatever nodes stand between
two declarations, these names are the ones of the declarations around a place, so a name that was
carried into a nested class is gone at the sibling after it. The search passes over comments and
fixed tokens, which have nothing below them.
-/

namespace SpecLens.Kotlin

open Place

variable {src : Source} {p q : Place}

/-- The search for declarations enters all that stands around a class or object. -/
lemma reach_walkedNode (h : src.BareTokens) (hp : src.Has p) (hnamed : p.named = true)
    (hdecl : isDeclaration p.node = true) : Reach walkedNode src.rootPlace p := by
  refine Reach.of_forall hp fun x hx _ hxp => ?_
  rcases Reach.iff_child.mp hxp with rfl | ⟨c, hc, -, -⟩
  · rw [walkedNode, isComment_of_isDeclaration hdecl]
    exact Bool.and_eq_true_iff.mpr ⟨hnamed, rfl⟩
  · obtain ⟨index, child, hchild, -⟩ := mem_children.mp hc
    exact h.walkedNode_of_children hx (List.ne_nil_of_mem (List.mem_of_getElem? hchild))

lemma named_of_reach (hreach : Reach walkedNode p q) (hne : q ≠ p) : q.named = true := by
  rcases hreach.eq_or_keep with heq | hwalked
  · exact (hne heq).elim
  · exact (Bool.and_eq_true_iff.mp hwalked).1

lemma map_place_declarations_eq_preorder (h : src.BareTokens) :
    (declarations src).map (·.place) =
      src.rootPlace.preorder.tail.filter fun p => p.named && isDeclaration p.node := by
  rw [map_place_declarations]
  apply filter_eq_filter_of_sublist (visit_sublist_preorder _ _).tail (preorder_nodup _).tail
  intro p
  simp only [List.mem_filter, mem_visit_tail, mem_preorder_tail, Bool.and_eq_true]
  constructor
  · rintro ⟨⟨hreach, hne⟩, hdecl⟩
    exact ⟨⟨hreach.toBelow, hne⟩, named_of_reach hreach hne, hdecl⟩
  · rintro ⟨⟨hbelow, hne⟩, hnamed, hdecl⟩
    exact ⟨⟨reach_walkedNode h hbelow hnamed hdecl, hne⟩, hdecl⟩

lemma qualify_intercalate (h : Header) (names : List String) (name : String) :
    h.qualify (".".intercalate (names ++ [name])) =
      ".".intercalate (h.package.toList ++ names ++ [name]) := by
  obtain ⟨package, imports⟩ := h
  cases package with
  | none => rfl
  | some package =>
    rw [Option.toList_some, List.append_assoc, List.singleton_append,
      String.intercalate_cons_of_ne_nil (by simp)]
    rfl

/-- The classes and objects of a file are listed in source order, each once, wherever they stand
below the root. The qualified name of each joins the package, the names of the declarations around
it and its own name. -/
theorem declarations_complete (h : src.BareTokens) :
    (declarations src).map (·.place) =
        src.rootPlace.preorder.tail.filter (fun p => p.named && isDeclaration p.node) ∧
      ((declarations src).map (·.place)).Nodup ∧
      ∀ d ∈ declarations src, d.name = declaredName src d.place ∧
        d.fqn = ".".intercalate ((Header.read src).package.toList ++
          (outerDeclarations d.place).map (declaredName src) ++ [d.name]) := by
  refine ⟨map_place_declarations_eq_preorder h, ?_, fun d hd => ?_⟩
  · rw [map_place_declarations]
    exact (visit_nodup _ _).tail.filter _
  · rw [declarations_eq_map_visit] at hd
    obtain ⟨q, -, rfl⟩ := List.mem_map.mp hd
    exact ⟨rfl, qualify_intercalate _ _ _⟩

/-- A class with a nested class, a function that holds an object, and an object after both. -/
def nestedTypes : Source where
  chars := "package p\nclass A \x7b\n class B\n fun f() \x7b object C \x7d\n object D\n\x7d\n".toList
  root := .rule "source_file" 0 63 [
    .rule "package_header" 0 9 [.fixed "package" 0, .rule "qualified_identifier" 8 9 [.identifier 8 9]],
    .rule "class_declaration" 10 62 [
      .fixed "class" 10,
      .title 16 17,
      .rule "class_body" 18 62 [
        .fixed "\x7b" 18,
        .rule "class_declaration" 21 28 [.fixed "class" 21, .title 27 28],
        function,
        .rule "object_declaration" 52 60 [.fixed "object" 52, .title 59 60],
        .fixed "\x7d" 61]]]
where
  function : Node :=
    .rule "function_declaration" 30 50 [
      .fixed "fun" 30,
      .title 34 35,
      .rule "function_value_parameters" 35 37 [.fixed "(" 35, .fixed ")" 36],
      .rule "function_body" 38 50 [
        .rule "block" 38 50 [
          .fixed "\x7b" 38,
          .rule "object_declaration" 40 48 [.fixed "object" 40, .title 47 48],
          .fixed "\x7d" 49]]]

/-- What stands in the function and after the nested class is named by the outer class alone. -/
theorem nestedTypes_fqns : nestedTypes.BareTokens ∧
    (declarations nestedTypes).map (·.fqn) = ["p.A", "p.A.B", "p.A.C", "p.A.D"] := by
  have hbare : nestedTypes.BareTokens := by
    unfold Source.BareTokens
    decide +kernel
  obtain ⟨hplaces, -, hnames⟩ := declarations_complete hbare
  have hfqns : (declarations nestedTypes).map (·.fqn) =
      ((declarations nestedTypes).map (·.place)).map fun p =>
        ".".intercalate ((Header.read nestedTypes).package.toList ++
          (outerDeclarations p).map (declaredName nestedTypes) ++ [declaredName nestedTypes p]) := by
    rw [List.map_map]
    apply List.map_congr_left
    intro d hd
    obtain ⟨hname, hfqn⟩ := hnames d hd
    rw [hfqn, hname]
    rfl
  refine ⟨hbare, ?_⟩
  rw [hfqns, hplaces]
  decide +kernel

end SpecLens.Kotlin
