import SpecLens.Tree.Node

/-!
# Places in a syntax tree

A place is a node together with the way to it from the root. Two nodes of one tree are the same
node when their ways are equal; their contents may agree at several places.
-/

namespace SpecLens

/-- A node of a tree with the steps that lead to it, nearest first: each step holds a node above
and the index of the child taken there. -/
structure Place where
  node : Node
  above : List (Node × Nat)
deriving Inhabited

namespace Place

/-- The root of a tree. -/
def root (n : Node) : Place := ⟨n, []⟩

def kind (p : Place) : String := p.node.kind
def named (p : Place) : Bool := p.node.named
def start (p : Place) : Nat := p.node.start
def stop (p : Place) : Nat := p.node.stop

/-- The indices of the children taken on the way, nearest first. -/
def path (p : Place) : List Nat := p.above.map (·.2)

/-- Whether two places of one tree are the same place. -/
def same (p q : Place) : Bool := p.path == q.path

def parent : Place → Option Place
  | ⟨_, []⟩ => none
  | ⟨_, (n, _) :: above⟩ => some ⟨n, above⟩

/-- The places at the nodes of a way, nearest first. -/
def alongWay : List (Node × Nat) → List Place
  | [] => []
  | (n, _) :: above => ⟨n, above⟩ :: alongWay above

/-- The places above, nearest first. -/
def ancestors (p : Place) : List Place := alongWay p.above

/-- The place itself and those above it, nearest first. -/
def selfAndAncestors (p : Place) : List Place := p :: p.ancestors

/-- The child of a place with the given index. -/
def down (p : Place) (index : Nat) (child : Node) : Place := ⟨child, (p.node, index) :: p.above⟩

@[simp] theorem parent_down (p : Place) (index : Nat) (child : Node) :
    (p.down index child).parent = some p := rfl

@[simp] theorem path_down (p : Place) (index : Nat) (child : Node) :
    (p.down index child).path = index :: p.path := rfl

@[simp] theorem ancestors_down (p : Place) (index : Nat) (child : Node) :
    (p.down index child).ancestors = p.selfAndAncestors := rfl

def children (p : Place) : List Place := p.node.children.mapIdx p.down

/-- The children that are rules of the grammar and no comments. -/
def namedChildren (p : Place) : List Place :=
  p.children.filter fun c => c.named && !c.node.isComment

/-- The child that fills the name field. -/
def nameChild (p : Place) : Option Place :=
  p.children.find? (·.node.tag.isName)

mutual

/-- A node and everything below it in source order, at the end of the way `above`. -/
def preorderOf : Node → List (Node × Nat) → List Place
  | .node tag children, above =>
    ⟨.node tag children, above⟩ :: preorderUnder (.node tag children) above children 0

/-- The same for the remaining children of `parent`, the first of which has the given index. -/
def preorderUnder (parent : Node) (above : List (Node × Nat)) : List Node → Nat → List Place
  | [], _ => []
  | child :: rest, index =>
    preorderOf child ((parent, index) :: above) ++ preorderUnder parent above rest (index + 1)

end

/-- The place and everything below it, in source order. -/
def preorder (p : Place) : List Place := preorderOf p.node p.above

end Place

end SpecLens
