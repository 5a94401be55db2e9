import Mathlib.Tactic.Lemma
import SpecLens.Proofs.Spec.Body

/-!
# Headers and supertypes as walks

The entries of a header, the type reference of a supertype and its segments are each found by a
recursion over a tree. Here each is told by what it does at one node and its children.
-/

namespace SpecLens.Kotlin

open Place

variable {src : Source} {p q : Place}

lemma entriesUnder_eq (p : Place) : Header.entriesUnder p.node p.above p.node.children 0 =
    p.children.flatMap fun c =>
      if c.named && !c.node.isComment then Header.entriesOf c.node c.above else [] := by
  apply eq_flatMap_children
  · intro index
    rw [Header.entriesUnder]
  · intro child rest index
    rw [Header.entriesUnder]
    rfl

lemma entriesOf_eq (p : Place) : Header.entriesOf p.node p.above =
    if p.kind == "import_list" then Header.entriesUnder p.node p.above p.node.children 0
    else [p] := by
  obtain ⟨⟨tag, children⟩, above⟩ := p
  rw [Header.entriesOf]
  rfl

lemma has_of_mem_entriesUnder (hp : src.Has p)
    (hq : q ∈ Header.entriesUnder p.node p.above p.node.children 0) : src.Has q := by
  induction p using inductionOn with
  | step p ih =>
    rw [entriesUnder_eq] at hq
    obtain ⟨c, hc, hq⟩ := List.mem_flatMap.mp hq
    have hchild := hp.child hc rfl
    rw [entriesOf_eq] at hq
    split at hq
    · split at hq
      · exact ih c hc hchild hq
      · exact List.mem_singleton.mp hq ▸ hchild
    · cases hq

/-- The supertype entries that a child of a declaration holds. -/
def specifiersAt (c : Place) : List Place :=
  if c.kind == "delegation_specifier" then [c]
  else if c.kind == "delegation_specifiers" then
    c.namedChildren.filter (·.kind == "delegation_specifier")
  else []

lemma delegationSpecifiers_eq (p : Place) : delegationSpecifiers p =
    p.children.flatMap fun c => if walkedNode c.node then specifiersAt c else [] := by
  rw [delegationSpecifiers, namedChildren, flatMap_filter]
  rfl

lemma has_of_mem_delegationSpecifiers (hp : src.Has p) (hs : q ∈ delegationSpecifiers p) :
    src.Has q := by
  rw [delegationSpecifiers_eq] at hs
  obtain ⟨c, hc, hs⟩ := List.mem_flatMap.mp hs
  have hchild := hp.child hc rfl
  unfold specifiersAt at hs
  split at hs
  · split at hs
    · exact List.mem_singleton.mp hs ▸ hchild
    · split at hs
      · exact hchild.child (mem_children_of_mem_namedChildren (List.mem_filter.mp hs).1) rfl
      · cases hs
  · cases hs

/-- A child whose type reference may be the one of its parent. -/
def typedNode (n : Node) : Bool :=
  n.named && !n.isComment && n.kind != "value_arguments" && n.kind != "type_arguments"

lemma userTypeUnder_eq (p : Place) : userTypeUnder p.node p.above p.node.children 0 =
    p.children.findSome? fun c =>
      if typedNode c.node then userTypeOf c.node c.above else none := by
  have h (cs : List Node) (index : Nat) : userTypeUnder p.node p.above cs index =
      (cs.mapIdx fun i c => p.down (index + i) c).findSome? fun c =>
        if typedNode c.node then userTypeOf c.node c.above else none := by
    induction cs generalizing index with
    | nil => rfl
    | cons c cs ih =>
      rw [userTypeUnder, List.mapIdx_cons, List.findSome?_cons, ih (index + 1)]
      simp only [Nat.add_zero, Nat.add_assoc, Nat.add_comm 1]
      change (if typedNode (p.down index c).node then
        userTypeOf (p.down index c).node (p.down index c).above else none).or _ = _
      cases if typedNode (p.down index c).node then
        userTypeOf (p.down index c).node (p.down index c).above else none <;> rfl
  have h := h p.node.children 0
  simp only [Nat.zero_add] at h
  exact h

lemma userTypeOf_eq (p : Place) : userTypeOf p.node p.above =
    if p.kind == "user_type" then some p
    else userTypeUnder p.node p.above p.node.children 0 := by
  obtain ⟨⟨tag, children⟩, above⟩ := p
  rw [userTypeOf]
  rfl

lemma below_of_userTypeOf (ht : userTypeOf p.node p.above = some q) : Below p q := by
  induction p using inductionOn with
  | step p ih =>
    rw [userTypeOf_eq] at ht
    split at ht
    · exact Option.some.inj ht ▸ .refl
    · rw [userTypeUnder_eq] at ht
      obtain ⟨c, hc, ht⟩ := List.exists_of_findSome?_eq_some ht
      split at ht
      · exact (below_of_mem_children hc).trans (ih c hc ht)
      · cases ht

/-- The segments that a child of a type reference contributes. -/
def segmentsAt (src : Source) (c : Place) : List String :=
  if c.kind == "type_arguments" then []
  else if isIdentifier c then [unquoted (src.textOf c)]
  else if c.named then segmentsOf src c.node
  else []

lemma segmentsOf_eq (src : Source) (p : Place) :
    segmentsOf src p.node = p.children.flatMap (segmentsAt src) := by
  have h := eq_flatMap_children p (fun children _ => segmentsUnder src children) (segmentsAt src)
    (fun _ => by rw [segmentsUnder]) (fun _ _ _ => by rw [segmentsUnder]; rfl)
  obtain ⟨⟨tag, children⟩, above⟩ := p
  rw [← h, segmentsOf]
  rfl

end SpecLens.Kotlin
