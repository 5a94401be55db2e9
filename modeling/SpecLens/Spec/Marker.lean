import SpecLens.Spec.Discovery

/-!
# Gutter markers

Markers for an editor's gutter come from single tokens: each brace or dot that leads to a test of
the spec's style marks it once.
-/

namespace SpecLens

open Kotlin

inductive MarkerKind where
  /-- Runs a whole spec. -/
  | spec
  | run
  /-- A test that is skipped. -/
  | disabled
deriving DecidableEq, Repr, Inhabited

def MarkerKind.name : MarkerKind → String
  | spec => "spec"
  | run => "run"
  | disabled => "disabled"

/-- A marker. The label is the name of the spec or the path of the test. -/
structure Marker where
  kind : MarkerKind
  label : String
  specFqn : String
  line : Nat
  anchor : Anchor
deriving DecidableEq, Repr, Inhabited

namespace Marker

def ofSpec (s : Spec) : Marker := ⟨.spec, s.fqn, s.fqn, s.anchor.line, s.anchor⟩

def ofTest (s : Spec) (t : Test) : Marker :=
  ⟨if t.disabled then .disabled else .run, t.readablePath, s.fqn, t.anchor.line, t.anchor⟩

mutual

/-- The tokens at or below a node; nested declarations are left out. -/
def tokensAt : Node → List (Node × Nat) → List Place
  | .node tag children, above =>
    if isDeclaration (.node tag children) then []
    else match children with
      | [] => [⟨.node tag children, above⟩]
      | _ :: _ => tokensUnder (.node tag children) above children 0

def tokensUnder (parent : Node) (above : List (Node × Nat)) : List Node → Nat → List Place
  | [], _ => []
  | child :: rest, index =>
    tokensAt child ((parent, index) :: above) ++ tokensUnder parent above rest (index + 1)

end

/-- The tokens of a declaration, those of declarations inside it left out. -/
def tokens (p : Place) : List Place :=
  match p.node.children with
  | [] => [p]
  | children => tokensUnder p.node p.above children 0

/-- The tests in the order of the list, the first one of each anchor. -/
def distinctTests : List Test → List Test
  | [] => []
  | t :: rest => t :: (distinctTests rest).filter fun u => u.anchor != t.anchor

/-- The declaration a spec was recognized from. -/
def declarationOf? (src : Source) (s : Spec) : Option Place :=
  (src.resolve s.anchor.kind s.anchor.startByte s.anchor.endByte).bind fun p =>
    p.selfAndAncestors.find? (isDeclaration ·.node)

/-- The tests that the tokens of a spec lead to. -/
def testsOf (r : Registry) (src : Source) (s : Spec) : List Test :=
  match r.byName? s.style, declarationOf? src s with
  | some style, some body => distinctTests ((tokens body).filterMap (style.testAtToken? src))
  | _, _ => []

/-- The order of markers: by position, a spec first. -/
def before (a b : Marker) : Bool :=
  a.anchor.startByte < b.anchor.startByte ||
    (a.anchor.startByte == b.anchor.startByte && (a.kind == .spec || b.kind != .spec))

end Marker

/-- The markers of a file, by position. -/
def Discovery.markers (d : Discovery) (src : Source) : List Marker :=
  ((d.specs src).flatMap fun s =>
    .ofSpec s :: (Marker.testsOf d.registry src s).map (.ofTest s)).mergeSort Marker.before

end SpecLens
