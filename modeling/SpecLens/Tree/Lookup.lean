import SpecLens.Tree.Place

/-!
# Finding places by offset

`covering` is the smallest node that covers a range of bytes and `leafAt` the smallest one at an
offset. Both go down from the root and enter at most one child at each level.
-/

namespace SpecLens.Place

/-- What the search for a range does with a child: pass over it, enter it, or give up. -/
inductive Turn where
  | skip
  | enter
  | stop

/-- A child that ends before the range is passed over, one that starts behind it ends the search.
A child that ends where the range starts is entered only if it is empty. -/
def turn (start stop : Nat) (child : Node) : Turn :=
  if child.stop < stop then .skip
  else if (if child.start = child.stop then child.stop < start else child.stop ≤ start) then .skip
  else if start < child.start then .stop
  else .enter

mutual

def coveringOf (start stop : Nat) : Node → List (Node × Nat) → Place
  | .node tag children, above =>
    (coveringUnder start stop (.node tag children) above children 0).getD
      ⟨.node tag children, above⟩

def coveringUnder (start stop : Nat) (parent : Node) (above : List (Node × Nat)) :
    List Node → Nat → Option Place
  | [], _ => none
  | child :: rest, index =>
    match turn start stop child with
    | .skip => coveringUnder start stop parent above rest (index + 1)
    | .stop => none
    | .enter => some (coveringOf start stop child ((parent, index) :: above))

end

/-- The smallest place at or below `p` that covers the bytes from `start` to `stop`. -/
def covering (p : Place) (start stop : Nat) : Place := coveringOf start stop p.node p.above

mutual

def smallestOf (offset : Nat) : Node → List (Node × Nat) → Place
  | .node tag children, above =>
    (smallestUnder offset (.node tag children) above children 0).getD ⟨.node tag children, above⟩

def smallestUnder (offset : Nat) (parent : Node) (above : List (Node × Nat)) :
    List Node → Nat → Option Place
  | [], _ => none
  | child :: rest, index =>
    if child.covers offset then some (smallestOf offset child ((parent, index) :: above))
    else smallestUnder offset parent above rest (index + 1)

end

/-- Where the descent into the first child that covers `offset` ends. -/
def smallest (p : Place) (offset : Nat) : Place := smallestOf offset p.node p.above

/-- The node with the given kind and range among nodes of that range: the climb from the smallest
one ends where the range grows. -/
def climbTo? (kind : String) (start stop : Nat) : List Place → Option Place
  | [] => none
  | p :: rest =>
    if p.kind = kind && p.start = start && p.stop = stop then some p
    else match rest with
      | [] => none
      | q :: _ => if q.start = start && q.stop = stop then climbTo? kind start stop rest else none

end SpecLens.Place
