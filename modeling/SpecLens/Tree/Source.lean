import SpecLens.Text.Position
import SpecLens.Tree.Lookup

/-!
# Source files

A source file is a text with its syntax tree. Anchors name nodes by kind and range; they lead back
to their node as long as the text stays the same.
-/

namespace SpecLens

open Text

/-- A source text with its syntax tree. -/
structure Source where
  chars : List Char
  root : Node

/-- The name of a node: its kind, its byte range and the positions of the range's ends. -/
structure Anchor where
  kind : String
  startByte : Nat
  endByte : Nat
  start : Position
  stop : Position
deriving DecidableEq, Repr, Inhabited

namespace Anchor

def line (a : Anchor) : Nat := a.start.line

/-- Whether the byte at `offset` lies in the anchored range. -/
def contains (a : Anchor) (offset : Nat) : Bool :=
  a.startByte ≤ offset && offset < a.endByte

end Anchor

namespace Source

def bytes (src : Source) : List UInt8 := toBytes src.chars

def rootPlace (src : Source) : Place := .root src.root

/-- Whether the parser had to recover from errors. -/
def hasErrors (src : Source) : Bool := src.root.tag.hasError

/-- The text of a node, empty if its range is no slice of the source. -/
def textOf (src : Source) (p : Place) : List Char :=
  (slice? src.chars p.start p.stop).getD []

def anchorOf (src : Source) (p : Place) : Anchor :=
  ⟨p.kind, p.start, p.stop, .ofOffset src.bytes p.start, .ofOffset src.bytes p.stop⟩

/-- The smallest node that covers the byte at `offset`. -/
def leafAt (src : Source) (offset : Nat) : Option Place :=
  if byteLength src.chars ≤ offset then none
  else some ((src.rootPlace.covering offset (offset + 1)).smallest offset)

/-- The node an anchor names. -/
def resolve (src : Source) (kind : String) (start stop : Nat) : Option Place :=
  (src.rootPlace.covering start stop).selfAndAncestors |> Place.climbTo? kind start stop

/-- The offset of a position. -/
def offsetAt (src : Source) (line column : Nat) : Option Nat :=
  offsetOf? src.bytes line column

end Source

end SpecLens
