import SpecLens.Tree.Source

/-!
# Specs and their tests

The hierarchy that recognition produces. It holds no syntax nodes, only anchors.
-/

namespace SpecLens

/-- The name of a test as declared. -/
structure TestName where
  /-- Shown before the name, such as `Given: `. -/
  lead : Option String
  name : String
  /-- The name holds template entries and is only a hint. -/
  interpolated : Bool
deriving DecidableEq, Repr, Inhabited

def TestName.display (n : TestName) : String := n.lead.getD "" ++ n.name

/-- One segment of the path of a test. -/
structure PathEntry where
  name : String
  interpolated : Bool
deriving DecidableEq, Repr, Inhabited

/-- The segment of a declared name. What is shown before the name is no part of it. -/
def PathEntry.ofName (n : TestName) : PathEntry := ⟨n.name, n.interpolated⟩

inductive TestKind where
  /-- May hold tests of its own. -/
  | container
  | leaf
deriving DecidableEq, Repr, Inhabited

/-- What stands between the segments of a path in a test filter. -/
def pathSeparator : String := " -- "

/-- The segments of a path as a test filter writes them. -/
def readablePath (path : List PathEntry) : String :=
  pathSeparator.intercalate (path.map (·.name))

/-- A recognized test. The last entry of `path` is the test itself. -/
structure Test where
  name : TestName
  path : List PathEntry
  kind : TestKind
  disabled : Bool
  isRoot : Bool
  anchor : Anchor
deriving DecidableEq, Repr, Inhabited

namespace Test

def readablePath (t : Test) : String := SpecLens.readablePath t.path

def isContainer (t : Test) : Bool := t.kind == .container

/-- The segments before the first interpolated one: only those can key a filter. -/
def stablePath (t : Test) : List PathEntry := t.path.takeWhile fun e => !e.interpolated

end Test

/-- A test with the tests declared inside it. -/
inductive TestTree where
  | node (test : Test) (nested : List TestTree)
deriving Inhabited

namespace TestTree

def test : TestTree → Test
  | node test _ => test

def nested : TestTree → List TestTree
  | node _ nested => nested

mutual

/-- A test and all that are nested in it, in source order. -/
def flatten : TestTree → List Test
  | node test nested => test :: flattenAll nested

def flattenAll : List TestTree → List Test
  | [] => []
  | tree :: rest => flatten tree ++ flattenAll rest

end

end TestTree

/-- A spec class with its tests. -/
structure Spec where
  name : String
  fqn : String
  /-- The fully qualified name of the style's base class. -/
  superclass : String
  style : String
  /-- The name of the class, or the whole declaration if it has none. -/
  anchor : Anchor
  tests : List TestTree
deriving Inhabited

namespace Spec

/-- Every test of a spec, in source order. -/
def allTests (s : Spec) : List Test := TestTree.flattenAll s.tests

def testCount (s : Spec) : Nat := s.allTests.length

end Spec

end SpecLens
