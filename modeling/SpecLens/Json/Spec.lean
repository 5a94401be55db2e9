import SpecLens.Json.Basic
import SpecLens.Project.Index
import SpecLens.Spec.Marker

/-!
# Specs, tests and markers as JSON
-/

namespace SpecLens

namespace Json

def ofPosition (p : Text.Position) : Json := obj [("line", num p.line), ("column", num p.column)]

def ofAnchor (a : Anchor) : Json := obj [
  ("kind", str a.kind), ("start_byte", num a.startByte), ("end_byte", num a.endByte),
  ("start", ofPosition a.start), ("end", ofPosition a.stop)]

def ofTestName (n : TestName) : Json := obj [
  ("prefix", ofOption n.lead), ("name", str n.name), ("interpolated", bool n.interpolated)]

def ofPathEntry (e : PathEntry) : Json := obj [
  ("name", str e.name), ("interpolated", bool e.interpolated)]

def ofTestKind : TestKind → Json
  | .container => str "container"
  | .leaf => str "test"

def ofTest (t : Test) : Json := obj [
  ("name", ofTestName t.name), ("path", arr (t.path.map ofPathEntry)),
  ("test_type", ofTestKind t.kind), ("disabled", bool t.disabled), ("is_root", bool t.isRoot),
  ("anchor", ofAnchor t.anchor)]

mutual

def ofTestTree : TestTree → Json
  | .node test nested => obj [("test", ofTest test), ("nested", arr (ofTestTrees nested))]

def ofTestTrees : List TestTree → List Json
  | [] => []
  | tree :: rest => ofTestTree tree :: ofTestTrees rest

end

def ofSpec (s : Spec) : Json := obj [
  ("name", str s.name), ("fqn", str s.fqn), ("superclass", str s.superclass),
  ("style", str s.style), ("anchor", ofAnchor s.anchor), ("tests", arr (ofTestTrees s.tests))]

def ofLocation (l : Location) : Json := obj [
  ("spec_name", str l.specName), ("spec_fqn", str l.specFqn), ("style", str l.style),
  ("test", match l.test with
    | some t => ofTest t
    | none => null)]

def ofMarker (m : Marker) : Json := obj [
  ("kind", str m.kind.name), ("label", str m.label), ("spec_fqn", str m.specFqn),
  ("line", num m.line), ("anchor", ofAnchor m.anchor)]

def ofIndexedFile (f : IndexedFile) : Json := obj [
  ("path", str f.path.text), ("relative_path", str f.relativePath), ("module", str f.module),
  ("specs", arr (f.specs.map ofSpec))]

def ofIndex (i : ProjectIndex) : Json := obj [
  ("files_scanned", num i.scanned), ("files", arr (i.files.map ofIndexedFile))]

end Json

end SpecLens
