import SpecLens.Config.Basic
import SpecLens.Kotlin.Declaration
import SpecLens.Style.Registry

/-!
# Discovery of specs

Each class of a file goes to the style its supertypes select, and the tests of that style are
collected from its body. `enclosing` finds the spec and the innermost test around an offset.
-/

namespace SpecLens

open Kotlin

/-- The styles that are looked for and the limits on the files. -/
structure Discovery where
  registry : Registry
  config : DiscoveryConfig
deriving Inhabited

/-- The spec and the innermost test at an offset. -/
structure Location where
  specName : String
  specFqn : String
  style : String
  test : Option Test
deriving DecidableEq, Repr, Inhabited

mutual

/-- The tests that a child contributes. Containers hold the tests inside them; those inside a
test stand beside it. -/
def testsAt (s : Style) (src : Source) : Node → List (Node × Nat) → List TestTree
  | .node tag children, above =>
    let inside := testsUnder s src (.node tag children) above children 0
    match s.test? src ⟨.node tag children, above⟩ with
    | some t => if t.isContainer then [.node t inside] else .node t [] :: inside
    | none => inside

/-- The tests below `parent` in source order; nested declarations are specs of their own. -/
def testsUnder (s : Style) (src : Source) (parent : Node) (above : List (Node × Nat)) :
    List Node → Nat → List TestTree
  | [], _ => []
  | child :: rest, index =>
    (if child.named && !child.isComment && !isDeclaration child then
      testsAt s src child ((parent, index) :: above)
    else []) ++ testsUnder s src parent above rest (index + 1)

end

namespace Discovery

/-- Looks for the given styles, with default limits. -/
def ofRegistry (r : Registry) : Discovery := ⟨r, .standard⟩

/-- Looks for the styles that the configuration leaves on. -/
def ofConfig (c : DiscoveryConfig) : Discovery := ⟨.withDisabled c.disabledStyles, c⟩

/-- The style that owns a declaration. -/
def styleFor? (d : Discovery) (all : List Declaration) (decl : Declaration) : Option Style :=
  d.registry.forSupertypes? (resolvedSupertypes all decl)

/-- The node a spec is anchored at. -/
def anchorPlace (decl : Declaration) : Place := decl.nameNode.getD decl.place

/-- The spec of a declaration of the given style. -/
def specOf (src : Source) (decl : Declaration) (s : Style) : Spec where
  name := decl.name
  fqn := decl.fqn
  superclass := s.fqn
  style := s.name
  anchor := src.anchorOf (anchorPlace decl)
  tests := testsUnder s src decl.place.node decl.place.above decl.place.node.children 0

/-- All specs of a file. -/
def specs (d : Discovery) (src : Source) : List Spec :=
  let all := declarations src
  all.filterMap fun decl => (d.styleFor? all decl).map (specOf src decl)

/-- The innermost declaration around an offset that a style owns: the last one in source order. -/
def owner? (d : Discovery) (all : List Declaration) (offset : Nat) :
    Option (Declaration × Style) :=
  (all.reverse.filter (·.place.node.covers offset)).findSome? fun decl =>
    (d.styleFor? all decl).map (decl, ·)

/-- The innermost test around an offset within a declaration. -/
def testAt? (src : Source) (decl : Declaration) (s : Style) (offset : Nat) : Option Test :=
  (src.leafAt offset).bind fun leaf =>
    (s.testAtToken? src leaf).or
      ((leaf.selfAndAncestors.takeWhile fun p => !p.same decl.place).findSome? (s.test? src))

/-- The spec and the innermost test around an offset. -/
def enclosing (d : Discovery) (src : Source) (offset : Nat) : Option Location :=
  (d.owner? (declarations src) offset).map fun (decl, s) =>
    ⟨decl.name, decl.fqn, s.name, testAt? src decl s offset⟩

end Discovery

end SpecLens
