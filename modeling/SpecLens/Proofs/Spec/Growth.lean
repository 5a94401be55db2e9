import SpecLens.Proofs.Kotlin.Addition
import SpecLens.Proofs.Kotlin.Growth
import SpecLens.Proofs.Spec.Listing

/-!
# Specs beside one more declaration

A declaration that is written into another one leaves the tests of all others as they are. It can
change which style owns them: the last declaration of a name is taken for a supertype of that name,
whatever it stands in. It does so only where it, or one within it, becomes the last of its name.
-/

namespace SpecLens

open Kotlin Place

namespace TestTree

mutual

/-- A test and all inside it without their positions. -/
def unplaced : TestTree → TestTree
  | node test nested => node test.unplaced (unplacedAll nested)

def unplacedAll : List TestTree → List TestTree
  | [] => []
  | tree :: rest => unplaced tree :: unplacedAll rest

end

lemma unplacedAll_eq (ts : List TestTree) : unplacedAll ts = ts.map unplaced := by
  induction ts with
  | nil => rfl
  | cons t ts ih => rw [unplacedAll, ih, List.map_cons]

end TestTree

/-- A spec without positions. -/
def Spec.unplaced (spec : Spec) : Spec :=
  { spec with anchor := default, tests := TestTree.unplacedAll spec.tests }

namespace Source.Grows

variable {src grown : Source} {added : Place} {lift : Place → Place} {p : Place} {s : Style}

lemma bodyNode_lift (h : src.Grows grown added lift) (hp : src.Has p) :
    bodyNode (lift p).node = bodyNode p.node := by
  have hnamed : (lift p).node.named = p.node.named := h.named_eq hp
  rw [bodyNode, hnamed, h.isComment_eq hp, h.isDeclaration_lift hp, bodyNode]

lemma testsUnder_lift (h : src.Grows grown added lift) (hadded : grown.Hosts added)
    (hp : src.Has p) :
    TestTree.unplacedAll
        (testsUnder s grown (lift p).node (lift p).above (lift p).node.children 0) =
      TestTree.unplacedAll (testsUnder s src p.node p.above p.node.children 0) := by
  induction p using inductionOn with
  | step p ih =>
    rw [testsUnder_eq, testsUnder_eq, TestTree.unplacedAll_eq, TestTree.unplacedAll_eq,
      List.map_flatMap, List.map_flatMap]
    refine h.flatMap_children hp (fun _ => ?_) fun c hc => ?_
    · -- The walk for tests enters no declaration.
      simp [bodyNode, hadded.declaration]
    · have hchild := hp.child hc rfl
      rw [h.bodyNode_lift hchild]
      split
      swap
      · rfl
      have htest := h.test?_lift (s := s) hadded hchild
      rw [testsAt_eq, testsAt_eq]
      cases ht : s.test? src c with
      | none =>
        rw [ht, Option.map_none, Option.map_eq_none_iff] at htest
        rw [htest, ← TestTree.unplacedAll_eq, ← TestTree.unplacedAll_eq]
        exact ih c hc hchild
      | some t =>
        rw [ht, Option.map_some, Option.map_eq_some_iff] at htest
        obtain ⟨t', ht', hsame⟩ := htest
        have hkind : t'.unplaced.kind = t.unplaced.kind := congrArg Test.kind hsame
        have hcontainer : t'.isContainer = t.isContainer :=
          congrArg (· == TestKind.container) hkind
        simp only [ht', hcontainer]
        split
        · simp only [List.map_cons, List.map_nil, TestTree.unplaced, hsame, ih c hc hchild]
        · rw [List.map_cons, List.map_cons, ← TestTree.unplacedAll_eq, ← TestTree.unplacedAll_eq,
            ih c hc hchild, TestTree.unplaced, TestTree.unplaced, hsame]

end Source.Grows

namespace Discovery

variable {src grown : Source} {added : Place} {lift : Place → Place} {decl : Declaration}
  {s : Style}

lemma specOf_lift (h : src.Grows grown added lift) (hadded : grown.Hosts added)
    (hdecl : decl ∈ declarations src) :
    (specOf grown (decl.map lift) s).unplaced = (specOf src decl s).unplaced := by
  have htests := h.testsUnder_lift (s := s) hadded (mem_declarations hdecl).1
  exact congrArg (Spec.mk _ _ _ _ _) htests

/-- What one more declaration within another one changes. All old declarations are still there, and
the tests that a style finds in them are the same. A style owns them as before unless they extend a
name whose last declaration is now a new one, be it directly or through others: unless something
new is in their lineage. -/
theorem grown_unaffected (d : Discovery) (h : src.Grows grown added lift)
    (hadded : grown.Hosts added) (hfqn : ((declarations grown).map (·.fqn)).Nodup)
    (hdecl : decl ∈ declarations src) :
    let old := fun e : Declaration => ¬Below added e.place
    decl.map lift ∈ declarations grown ∧
    (∀ s, (specOf grown (decl.map lift) s).unplaced = (specOf src decl s).unplaced) ∧
    (Unaffected (declarations src) (declarations grown) old decl →
      d.styleFor? (declarations grown) (decl.map lift) = d.styleFor? (declarations src) decl) ∧
    (Unaffected (declarations src) (declarations grown) old decl ↔
      ∀ e ∈ lineage (declarations grown) (decl.map lift), old e) := by
  classical
  intro old
  have hmore := h.filter_declarations hadded
  refine ⟨(mem_more hmore hdecl).1, fun s => specOf_lift h hadded hdecl, fun hfree => ?_,
    unaffected_iff hmore hfqn hdecl⟩
  exact d.registry.forSupertypes?_congr fun name =>
    hfree.mem_resolvedSupertypes_iff hmore hfqn hdecl

end Discovery

namespace Node

/-- A class without supertypes. -/
def plainClass (start name stop : Nat) (body : List Node) : Node :=
  .rule "class_declaration" start stop [
    .fixed "class" start,
    .title (start + 6) name,
    .rule "class_body" (name + 1) stop
      (.fixed "\x7b" (name + 1) :: body ++ [.fixed "\x7d" (stop - 1)])]

/-- A class that calls the constructor of another one. -/
def subclass (start name base stop : Nat) (arguments : List Node) : Node :=
  .rule "class_declaration" start stop [
    .fixed "class" start,
    .title (start + 6) name,
    .fixed ":" (name + 1),
    .rule "delegation_specifiers" (name + 3) stop [
      .rule "delegation_specifier" (name + 3) stop [
        .rule "constructor_invocation" (name + 3) stop [
          .rule "user_type" (name + 3) base [.identifier (name + 3) base],
          .rule "value_arguments" base stop
            (.fixed "(" base :: arguments ++ [.fixed ")" (stop - 1)])]]]]

end Node

/-- A spec with a test, one that extends it, and a class, which holds a namesake of the first one
where the argument says so. -/
def basedSpec (inner : Bool) : Source where
  chars := "import io.kotest.core.spec.style.FunSpec\n".toList ++
    "class Base : FunSpec(\x7b test(\"a\") \x7b \x7d \x7d)\n".toList ++
    "class Real : Base()\n".toList ++
    "class Last \x7b ".toList ++ text ++ "\x7d\n".toList
  root := .rule "source_file" 0 (116 + text.length) (hiddenTest.root.children.take 1 ++ [
    .subclass 41 51 61 80 [
      .rule "value_argument" 62 79 [.lambda 62 79 [.literalBlock 64 68 74 77 []]]],
    .subclass 81 91 98 100 [],
    .plainClass 101 111 (115 + text.length) (if inner then [
      .rule "class_declaration" 114 124 [.fixed "class" 114, .title 120 124]] else [])])
where
  text : List Char := if inner then "class Base ".toList else []

def placeAt (src : Source) (path : List Nat) : Place :=
  (src.rootPlace.preorder.find? (·.path = path)).getD src.rootPlace

lemma has_placeAt (src : Source) (path : List Nat) : src.Has (placeAt src path) := by
  unfold placeAt
  cases hfound : src.rootPlace.preorder.find? (·.path = path) with
  | none => exact .refl
  | some p => exact mem_preorder.mp (List.mem_of_find?_eq_some hfound)

/-- The inner class, which comes before the closing brace. -/
def innerClass : Place := placeAt (basedSpec true) [1, 2, 3]

lemma has_innerClass : (basedSpec true).Has innerClass := has_placeAt _ _

def liftBased (p : Place) : Place :=
  placeAt (basedSpec true) (if p.path = [1, 2, 3] then [2, 2, 3] else p.path)

set_option maxRecDepth 4000 in
lemma basedSpec_grows : (basedSpec false).Grows (basedSpec true) innerClass liftBased := by
  refine Source.grows_of_paths has_innerClass (fun _ _ => has_placeAt _ _) ?_ ?_ ?_ ?_ ?_ <;>
    decide

lemma basedSpec_hosts : (basedSpec true).Hosts innerClass where
  declaration := by decide
  unnamed := by decide
  parent := by
    have hparent : innerClass.parent.all (fun q =>
        q.parent.isSome && !partedKinds.contains q.kind) = true := by
      decide
    intro q hq
    simpa [hq] using hparent
  around := by decide
  supertype := by
    have htypes : ∀ p ∈ (basedSpec true).rootPlace.preorder, isDeclaration p.node = true →
        ∀ s ∈ delegationSpecifiers p, (userTypeOf s.node s.above).all (fun t =>
          !t.selfAndAncestors.any (·.same innerClass) &&
            !innerClass.selfAndAncestors.any (·.same t)) = true := by
      decide
    intro p hp hdecl _ s hs t ht
    have hhas : (basedSpec true).Has t :=
      (has_of_mem_delegationSpecifiers (mem_preorder.mp hp) hs).trans
        (below_of_userTypeOf ht)
    have htype := htypes p hp hdecl s hs
    rw [ht, Option.all_some, Bool.and_eq_true] at htype
    rw [Source.below_iff_any has_innerClass hhas, Source.below_iff_any hhas has_innerClass]
    simpa using htype

/-- The declaration with a fully qualified name. -/
def declared (src : Source) (fqn : String) : Declaration :=
  ((declarations src).find? (·.fqn = fqn)).getD default

lemma mem_declared {src : Source} {fqn : String} (h : fqn ∈ (declarations src).map (·.fqn)) :
    declared src fqn ∈ declarations src := by
  obtain ⟨d, hd, hfqn⟩ := List.mem_map.mp h
  unfold declared
  cases hfound : (declarations src).find? (·.fqn = fqn) with
  | none => exact absurd hfqn (by simpa using List.find?_eq_none.mp hfound d hd)
  | some d => exact List.mem_of_find?_eq_some hfound

/-- What is read in the file without the inner class. -/
lemma basedSpec_without :
    let src := basedSpec false
    let base := declared src "Base"
    let real := declared src "Real"
    let d := Discovery.ofRegistry .full
    (declarations src).map (·.fqn) = ["Base", "Real", "Last"] ∧
      d.styleFor? (declarations src) base = some .funStyle ∧
      (Discovery.specOf src base .funStyle).tests.length = 1 ∧
      real.supertypes.map (·.text) = ["Base"] ∧
      d.styleFor? (declarations src) real = some .funStyle := by
  decide

/-- What is read in the file with the inner class. -/
lemma basedSpec_with :
    let grown := basedSpec true
    let base := declared (basedSpec false) "Base"
    let real := declared (basedSpec false) "Real"
    let host := declared grown "Last"
    let inner := declared grown "Last.Base"
    (declarations grown).map (·.fqn) = ["Base", "Real", "Last", "Last.Base"] ∧
      (∀ e ∈ lineage (declarations grown) (base.map liftBased),
        e.place.selfAndAncestors.any (·.same innerClass) = false) ∧
      host.name = "Last" ∧ inner.name = "Base" ∧ innerClass.path = inner.place.path ∧
      inner.place.selfAndAncestors.any (·.same host.place) = true ∧
      (liftBased real.place).selfAndAncestors.any (·.same host.place) = false ∧
      (Discovery.ofRegistry .full).styleFor? (declarations grown) (real.map liftBased) = none := by
  decide

lemma innerClass_eq : innerClass = (declared (basedSpec true) "Last.Base").place := by
  obtain ⟨hnames, -, -, -, hpath, -⟩ := basedSpec_with
  have hmem : declared (basedSpec true) "Last.Base" ∈ declarations (basedSpec true) :=
    mem_declared (by rw [hnames]; decide)
  exact eq_of_path_eq has_innerClass (mem_declarations hmem).1 hpath

/-- A spec that extends nothing of the file stays what it is beside a namesake. -/
theorem grown_unaffected_base :
    let src := basedSpec false
    let grown := basedSpec true
    let base := declared src "Base"
    let d := Discovery.ofRegistry .full
    src.Grows grown innerClass liftBased ∧ grown.Hosts innerClass ∧
      ((declarations grown).map (·.fqn)).Nodup ∧ base ∈ declarations src ∧
      base.map liftBased ∈ declarations grown ∧
      d.styleFor? (declarations src) base = some .funStyle ∧
      d.styleFor? (declarations grown) (base.map liftBased) =
        d.styleFor? (declarations src) base ∧
      (Discovery.specOf src base .funStyle).tests.length = 1 ∧
      (Discovery.specOf grown (base.map liftBased) .funStyle).unplaced =
        (Discovery.specOf src base .funStyle).unplaced := by
  intro src grown base d
  obtain ⟨hnames, hstyle, htests, -⟩ := basedSpec_without
  obtain ⟨hnames', hlineage, -⟩ := basedSpec_with
  have hbase : base ∈ declarations src := mem_declared (by rw [hnames]; decide)
  have hfqn : ((declarations grown).map (·.fqn)).Nodup := by
    rw [hnames']
    decide
  obtain ⟨hmem, hspec, hsame, hiff⟩ :=
    d.grown_unaffected basedSpec_grows basedSpec_hosts hfqn hbase
  have hfree : Unaffected (declarations src) (declarations grown)
      (fun e => ¬Below innerClass e.place) base := by
    refine hiff.mpr fun e he => ?_
    obtain ⟨n, -, hchain⟩ := (mem_lineage hfqn hmem).mp he
    have hhas : grown.Has e.place := (mem_declarations (hchain.mem hmem)).1
    rw [Source.below_iff_any has_innerClass hhas, hlineage e he]
    exact Bool.false_ne_true
  exact ⟨basedSpec_grows, basedSpec_hosts, hfqn, hbase, hmem, hstyle, hsame hfree, htests,
    hspec .funStyle⟩

/-- A namesake in another class that comes last is taken for a supertype out of its scope. -/
theorem inner_namesake_displaces :
    let src := basedSpec false
    let grown := basedSpec true
    let real := declared src "Real"
    let host := declared grown "Last"
    let inner := declared grown "Last.Base"
    let d := Discovery.ofRegistry .full
    src.Grows grown inner.place liftBased ∧
      real ∈ declarations src ∧ real.supertypes.map (·.text) = [inner.name] ∧
      host ∈ declarations grown ∧ inner ∈ declarations grown ∧
      Below host.place inner.place ∧ ¬Below host.place (liftBased real.place) ∧
      host.name ∉ real.supertypes.map (·.text) ∧
      d.styleFor? (declarations src) real = some .funStyle ∧
      d.styleFor? (declarations grown) (real.map liftBased) = none := by
  intro src grown real host inner d
  obtain ⟨hnames, -, -, htexts, hstyle⟩ := basedSpec_without
  obtain ⟨hnames', -, hhostName, hinnerName, -, hinside, houtside, hnone⟩ := basedSpec_with
  have hreal : real ∈ declarations src := mem_declared (by rw [hnames]; decide)
  have hhost : host ∈ declarations grown := mem_declared (by rw [hnames']; decide)
  have hinner : inner ∈ declarations grown := mem_declared (by rw [hnames']; decide)
  have hgrows : src.Grows grown inner.place liftBased := innerClass_eq ▸ basedSpec_grows
  have hbelow : Below host.place inner.place :=
    (Source.below_iff_any (mem_declarations hhost).1 (mem_declarations hinner).1).mpr hinside
  have hapart : ¬Below host.place (liftBased real.place) := by
    have hlift : grown.Has (liftBased real.place) := has_placeAt _ _
    rw [Source.below_iff_any (mem_declarations hhost).1 hlift, houtside]
    exact Bool.false_ne_true
  have hother : host.name ∉ real.supertypes.map (·.text) := by
    rw [hhostName, htexts]
    decide
  exact ⟨hgrows, hreal, by rw [hinnerName, htexts], hhost, hinner, hbelow, hapart, hother, hstyle,
    hnone⟩

end SpecLens
