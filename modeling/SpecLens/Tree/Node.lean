import SpecLens.Text.Split

/-!
# Syntax trees

A syntax tree is a rose tree whose nodes carry a kind, a byte range and what the grammar says of
them. `Node.ofEntries?` reads a tree off its pre-order list of nodes and depths.
-/

namespace SpecLens

/-- What a syntax node says of itself. -/
structure Tag where
  kind : String
  /-- A named node is a rule of the grammar, an anonymous one a fixed token. -/
  named : Bool
  /-- The node fills the name field of its parent. -/
  isName : Bool
  /-- The parser recovered from an error at or below the node. -/
  hasError : Bool
  /-- The parser supplied the node itself, without any text. -/
  missing : Bool
  start : Nat
  stop : Nat
deriving DecidableEq, Repr, Inhabited

/-- A syntax node with the tree below it. -/
inductive Node where
  | node (tag : Tag) (children : List Node)
deriving Inhabited

namespace Node

def tag : Node → Tag
  | node tag _ => tag

def children : Node → List Node
  | node _ children => children

def kind (n : Node) : String := n.tag.kind
def named (n : Node) : Bool := n.tag.named
def start (n : Node) : Nat := n.tag.start
def stop (n : Node) : Nat := n.tag.stop

/-- Comments of every sort, told by their kind. -/
def isComment (n : Node) : Bool :=
  Text.containsText "comment".toList n.kind.toList

/-- Whether the byte at `offset` lies in the node. -/
def covers (n : Node) (offset : Nat) : Bool :=
  n.start ≤ offset && offset < n.stop

/-- One more entry before a list of trees that are read already: it takes the deeper ones that
follow it as its children. -/
def graft (entry : Tag × Nat) (read : List (Node × Nat)) : List (Node × Nat) :=
  let below := read.takeWhile fun (_, depth) => entry.2 < depth
  (node entry.1 (below.map (·.1)), entry.2) :: read.drop below.length

/-- The tree of a pre-order list of nodes and their depths, if there is exactly one root. -/
def ofEntries? (entries : List (Tag × Nat)) : Option Node :=
  match entries.foldr graft [] with
  | [(root, _)] => some root
  | _ => none

end Node

end SpecLens
