import SpecLens.Proofs.Tree.Reach
import SpecLens.Tree.Source

/-!
# Trees without some of their nodes

`loose` selects places of a tree. The nodes there are dissolved: the children of each take its place
among those of its parent. This file follows the other places into the smaller tree. They keep their
tags, their order and what stands above them, and no two of them become one.
-/

namespace SpecLens

namespace Place

mutual

def dissolveOf (loose : Place → Bool) : Node → List (Node × Nat) → Node
  | .node tag children, above =>
    .node tag (dissolveUnder loose (.node tag children) above children 0)

def dissolveUnder (loose : Place → Bool) (parent : Node) (above : List (Node × Nat)) :
    List Node → Nat → List Node
  | [], _ => []
  | child :: rest, index =>
    (if loose ⟨child, (parent, index) :: above⟩ then
      (dissolveOf loose child ((parent, index) :: above)).children
    else [dissolveOf loose child ((parent, index) :: above)]) ++
      dissolveUnder loose parent above rest (index + 1)

end

/-- The node of a place without the loose nodes below it. -/
def dissolve (loose : Place → Bool) (p : Place) : Node := dissolveOf loose p.node p.above

/-- What is left of a node in the list of its parent's children. -/
def remains (loose : Place → Bool) (p : Place) : List Node :=
  if loose p then (p.dissolve loose).children else [p.dissolve loose]

/-- How many children come before the one that had the given index. -/
def shift (loose : Place → Bool) (p : Place) (index : Nat) : Nat :=
  ((p.children.take index).flatMap (remains loose)).length

/-- The way to a place in the smaller tree. A step out of a loose node continues the step that led
to it. -/
def wayWithout (loose : Place → Bool) : List (Node × Nat) → List (Node × Nat)
  | [] => []
  | (n, index) :: above =>
    if loose ⟨n, above⟩ then
      match wayWithout loose above with
      | [] => []
      | (m, first) :: rest => (m, first + shift loose ⟨n, above⟩ index) :: rest
    else (dissolve loose ⟨n, above⟩, shift loose ⟨n, above⟩ index) :: wayWithout loose above

/-- The place in the smaller tree. -/
def without (loose : Place → Bool) (p : Place) : Place :=
  ⟨p.dissolve loose, wayWithout loose p.above⟩

mutual

def surfaceOf (loose : Place → Bool) : Node → List (Node × Nat) → List Place
  | .node tag children, above =>
    if loose ⟨.node tag children, above⟩ then surfaceUnder loose (.node tag children) above children 0
    else [⟨.node tag children, above⟩]

def surfaceUnder (loose : Place → Bool) (parent : Node) (above : List (Node × Nat)) :
    List Node → Nat → List Place
  | [], _ => []
  | child :: rest, index =>
    surfaceOf loose child ((parent, index) :: above) ++
      surfaceUnder loose parent above rest (index + 1)

end

/-- The place itself or, if it is loose, the first places below it that are not. -/
def surface (loose : Place → Bool) (p : Place) : List Place := surfaceOf loose p.node p.above

variable {loose : Place → Bool} {p q : Place}

lemma surface_eq (loose : Place → Bool) (p : Place) :
    p.surface loose = if loose p then p.children.flatMap (surface loose) else [p] := by
  have h := eq_flatMap_children p (surfaceUnder loose p.node p.above) (surface loose)
    (fun _ => by rw [surfaceUnder]) (fun _ _ _ => by rw [surfaceUnder]; rfl)
  obtain ⟨⟨tag, children⟩, above⟩ := p
  rw [← h, surface, surfaceOf]
  rfl

lemma surface_of_kept (h : loose p = false) : p.surface loose = [p] := by
  rw [surface_eq, h, if_neg Bool.false_ne_true]

lemma surface_of_loose (h : loose p = true) :
    p.surface loose = p.children.flatMap (surface loose) := by
  rw [surface_eq, if_pos h]

@[simp] lemma tag_dissolve (loose : Place → Bool) (p : Place) :
    (p.dissolve loose).tag = p.node.tag := by
  obtain ⟨⟨tag, children⟩, above⟩ := p
  rw [dissolve, dissolveOf]
  rfl

@[simp] lemma tag_without (loose : Place → Bool) (p : Place) :
    (p.without loose).node.tag = p.node.tag := tag_dissolve loose p

@[simp] lemma kind_without (loose : Place → Bool) (p : Place) :
    (p.without loose).kind = p.kind := congrArg Tag.kind (tag_without loose p)

@[simp] lemma named_without (loose : Place → Bool) (p : Place) :
    (p.without loose).named = p.named := congrArg Tag.named (tag_without loose p)

@[simp] lemma start_without (loose : Place → Bool) (p : Place) :
    (p.without loose).start = p.start := congrArg Tag.start (tag_without loose p)

@[simp] lemma stop_without (loose : Place → Bool) (p : Place) :
    (p.without loose).stop = p.stop := congrArg Tag.stop (tag_without loose p)

@[simp] lemma isComment_without (loose : Place → Bool) (p : Place) :
    (p.without loose).node.isComment = p.node.isComment :=
  congrArg (fun tag : Tag => Text.containsText "comment".toList tag.kind.toList)
    (tag_without loose p)

lemma children_dissolve (loose : Place → Bool) (p : Place) :
    (p.dissolve loose).children = p.children.flatMap (remains loose) := by
  have h := eq_flatMap_children p (dissolveUnder loose p.node p.above) (remains loose)
    (fun _ => by rw [dissolveUnder]) (fun _ _ _ => by rw [dissolveUnder]; rfl)
  obtain ⟨⟨tag, children⟩, above⟩ := p
  rw [← h, dissolve, dissolveOf]
  rfl

/-- Parts that carry on each other's numbering are numbered as a whole. -/
lemma flatMap_eq_mapIdx {α β γ : Type} (l : List α) (parts : α → List β) (placed : α → List γ)
    (number : Nat → β → γ)
    (h : ∀ i a, l[i]? = some a → placed a =
      (parts a).mapIdx fun k b => number (((l.take i).flatMap parts).length + k) b) :
    l.flatMap placed = (l.flatMap parts).mapIdx number := by
  induction l generalizing number with
  | nil => rfl
  | cons a l ih =>
    have hhead := h 0 a rfl
    have htail := ih (fun k b => number (k + (parts a).length) b) fun i b hb => by
      have hb := h (i + 1) b hb
      simp only [List.take_succ_cons, List.flatMap_cons, List.length_append] at hb
      rw [hb]
      apply congrArg (List.mapIdx · _)
      funext k c
      apply congrArg (number · c)
      omega
    rw [List.flatMap_cons, List.flatMap_cons, List.mapIdx_append, htail, hhead]
    simp

/-- The places at the surface of a node continue the way to it. -/
lemma map_without_surface {m : Node} {first : Nat} {rest : List (Node × Nat)}
    (h : wayWithout loose p.above = (m, first) :: rest) :
    (p.surface loose).map (without loose) =
      (p.remains loose).mapIdx fun k n => ⟨n, (m, first + k) :: rest⟩ := by
  induction p using inductionOn generalizing first with
  | step p ih =>
    cases hloose : loose p with
    | false => simp [surface_of_kept hloose, remains, hloose, without, h]
    | true =>
      rw [surface_of_loose hloose, remains, if_pos hloose, children_dissolve, List.map_flatMap]
      apply flatMap_eq_mapIdx
      intro i c hc
      obtain ⟨child, hchild, rfl⟩ : ∃ child, p.node.children[i]? = some child ∧
          c = p.down i child := by
        rw [children, List.getElem?_mapIdx, Option.map_eq_some_iff] at hc
        obtain ⟨child, hchild, rfl⟩ := hc
        exact ⟨child, hchild, rfl⟩
      have hway : wayWithout loose (p.down i child).above =
          (m, first + shift loose p i) :: rest := by
        have hloose : loose ⟨p.node, p.above⟩ = true := hloose
        simp only [down, wayWithout, hloose, if_true, h]
      rw [ih _ (List.mem_of_getElem? hc) hway]
      simp only [shift, Nat.add_assoc]

/-- The children of a place in the smaller tree are those at the surface. -/
theorem children_without (h : loose p = false) :
    (p.without loose).children = (p.children.flatMap (surface loose)).map (without loose) := by
  have hnode : (p.without loose).node.children = p.children.flatMap (remains loose) :=
    children_dissolve loose p
  rw [children, hnode, List.map_flatMap]
  symm
  apply flatMap_eq_mapIdx
  intro i c hc
  obtain ⟨child, hchild, rfl⟩ : ∃ child, p.node.children[i]? = some child ∧ c = p.down i child := by
    rw [children, List.getElem?_mapIdx, Option.map_eq_some_iff] at hc
    obtain ⟨child, hchild, rfl⟩ := hc
    exact ⟨child, hchild, rfl⟩
  have hway : wayWithout loose (p.down i child).above =
      (p.dissolve loose, shift loose p i) :: wayWithout loose p.above := by
    have h : loose ⟨p.node, p.above⟩ = false := h
    simp [down, wayWithout, h]
  rw [map_without_surface hway]
  rfl

lemma alongWay_wayWithout (loose : Place → Bool) (above : List (Node × Nat)) :
    alongWay (wayWithout loose above) =
      ((alongWay above).filter fun q => !loose q).map (without loose) := by
  induction above with
  | nil => rfl
  | cons step above ih =>
    obtain ⟨n, index⟩ := step
    rw [wayWithout, alongWay, List.filter_cons]
    cases hloose : loose ⟨n, above⟩ with
    | false => simp [alongWay, ih, without]
    | true =>
      simp only [if_true, Bool.not_true, Bool.false_eq_true, if_false]
      rw [← ih]
      cases wayWithout loose above with
      | nil => rfl
      | cons step rest => rfl

/-- The places above one in the smaller tree are the images of those above it that are kept. -/
theorem ancestors_without (loose : Place → Bool) (p : Place) :
    (p.without loose).ancestors =
      (p.ancestors.filter fun q => !loose q).map (without loose) :=
  alongWay_wayWithout loose p.above

lemma selfAndAncestors_without (h : loose p = false) :
    (p.without loose).selfAndAncestors =
      (p.selfAndAncestors.filter fun q => !loose q).map (without loose) := by
  simp [selfAndAncestors, ancestors_without, h]

lemma parent_eq_head? (p : Place) : p.parent = p.ancestors.head? := by
  obtain ⟨node, _ | ⟨step, above⟩⟩ := p <;> rfl

lemma parent_without_of_kept (h : p.parent = some q) (hq : loose q = false) :
    (p.without loose).parent = some (q.without loose) := by
  rw [parent_eq_head?, ancestors_without, ancestors_of_parent h, selfAndAncestors]
  simp [hq]

lemma parent_without_of_loose {r : Place} (h : p.parent = some q) (hq : loose q = true)
    (h' : q.parent = some r) (hr : loose r = false) :
    (p.without loose).parent = some (r.without loose) := by
  rw [parent_eq_head?, ancestors_without, ancestors_of_parent h, selfAndAncestors,
    ancestors_of_parent h', selfAndAncestors]
  simp [hq, hr]

lemma flatMap_preorder_surface (loose : Place → Bool) (p : Place) :
    ((p.surface loose).map (without loose)).flatMap preorder =
      (p.preorder.filter fun q => !loose q).map (without loose) := by
  induction p using inductionOn with
  | step p ih =>
    have hchildren : ((p.children.flatMap (surface loose)).map (without loose)).flatMap preorder =
        ((p.children.flatMap preorder).filter fun q => !loose q).map (without loose) := by
      rw [List.map_flatMap, List.flatMap_assoc, List.filter_flatMap, List.map_flatMap]
      exact List.flatMap_congr ih
    rw [preorder_eq p, List.filter_cons]
    cases hloose : loose p with
    | true =>
      rw [surface_of_loose hloose, hchildren]
      rfl
    | false =>
      rw [surface_of_kept hloose, List.map_singleton, List.flatMap_singleton,
        preorder_eq (p.without loose), children_without hloose, hchildren]
      rfl

/-- The places of the smaller tree are the images of those that are kept, in order. -/
theorem preorder_without (h : loose p = false) :
    (p.without loose).preorder = (p.preorder.filter fun q => !loose q).map (without loose) := by
  rw [← flatMap_preorder_surface, surface_of_kept h, List.map_singleton, List.flatMap_singleton]

end Place

open Place

namespace Source

/-- A source without the loose nodes of its tree. -/
def without (loose : Place → Bool) (src : Source) : Source :=
  ⟨src.chars, src.rootPlace.dissolve loose⟩

variable {loose : Place → Bool} {src : Source} {p q : Place}

lemma rootPlace_without (loose : Place → Bool) (src : Source) :
    (src.without loose).rootPlace = src.rootPlace.without loose := rfl

@[simp] lemma textOf_without (loose : Place → Bool) (src : Source) (p : Place) :
    (src.without loose).textOf (p.without loose) = src.textOf p := by
  simp [textOf, without]

@[simp] lemma anchorOf_without (loose : Place → Bool) (src : Source) (p : Place) :
    (src.without loose).anchorOf (p.without loose) = src.anchorOf p := by
  simp [anchorOf, without, bytes]

/-- Places that are kept stay apart. -/
theorem same_without (hroot : loose src.rootPlace = false) (hp : Below src.rootPlace p)
    (hq : Below src.rootPlace q) (hkp : loose p = false) (hkq : loose q = false) :
    (p.without loose).same (q.without loose) = p.same q := by
  have hmem {x : Place} (hx : Below src.rootPlace x) (hkx : loose x = false) :
      x ∈ src.rootPlace.preorder.filter fun y => !loose y :=
    List.mem_filter.mpr ⟨mem_preorder.mpr hx, by simp [hkx]⟩
  have hbelow {x : Place} (hx : Below src.rootPlace x) (hkx : loose x = false) :
      Below (src.rootPlace.without loose) (x.without loose) := by
    rw [← mem_preorder, preorder_without hroot]
    exact List.mem_map_of_mem (hmem hx hkx)
  have hnodup := preorder_nodup (src.rootPlace.without loose)
  rw [preorder_without hroot] at hnodup
  rw [Bool.eq_iff_iff, same_iff (hbelow hp hkp) (hbelow hq hkq), same_iff hp hq]
  exact ⟨fun h => List.inj_on_of_nodup_map hnodup (hmem hp hkp) (hmem hq hkq) h, fun h => h ▸ rfl⟩

end Source

end SpecLens
