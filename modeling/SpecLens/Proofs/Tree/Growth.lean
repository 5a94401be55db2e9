import SpecLens.Proofs.Tree.Nesting

/-!
# Trees with one more node

A file that gets one more declaration keeps its other nodes. Their positions move, and the nodes
around the new one have a longer text. This file follows the old nodes into the new tree.
-/

namespace SpecLens

open Place

/-- `grown` is `src` with one more node, `added`, and what is below it. `lift` leads from the places
of `src` to those that they are in `grown`. A text is another one only around the new node. -/
structure Source.Grows (src grown : Source) (added : Place) (lift : Place → Place) : Prop where
  root : lift src.rootPlace = grown.rootPlace
  children : ∀ p ∈ src.rootPlace.preorder,
    (lift p).children.filter (fun c => !c.same added) = p.children.map lift
  kind : ∀ p ∈ src.rootPlace.preorder, (lift p).kind = p.kind
  named : ∀ p ∈ src.rootPlace.preorder, (lift p).named = p.named
  isName : ∀ p ∈ src.rootPlace.preorder, (lift p).node.tag.isName = p.node.tag.isName
  text : ∀ p ∈ src.rootPlace.preorder, ¬Below (lift p) added → grown.textOf (lift p) = src.textOf p
  child : ∃ p ∈ src.rootPlace.preorder, added ∈ (lift p).children

namespace Source.Grows

variable {src grown : Source} {added : Place} {lift : Place → Place} {p q c : Place}

lemma kind_eq (h : src.Grows grown added lift) (hp : src.Has p) : (lift p).kind = p.kind :=
  h.kind p (mem_preorder.mpr hp)

lemma named_eq (h : src.Grows grown added lift) (hp : src.Has p) : (lift p).named = p.named :=
  h.named p (mem_preorder.mpr hp)

lemma isComment_eq (h : src.Grows grown added lift) (hp : src.Has p) :
    (lift p).node.isComment = p.node.isComment :=
  congrArg (fun kind : String => Text.containsText "comment".toList kind.toList) (h.kind_eq hp)

lemma lift_mem_children (h : src.Grows grown added lift) (hp : src.Has p) (hc : c ∈ p.children) :
    lift c ∈ (lift p).children ∧ lift c ≠ added := by
  have hmem : lift c ∈ (lift p).children.filter fun c => !c.same added := by
    rw [h.children p (mem_preorder.mpr hp)]
    exact List.mem_map_of_mem hc
  obtain ⟨hchild, hsame⟩ := List.mem_filter.mp hmem
  refine ⟨hchild, fun heq => ?_⟩
  simp [heq, Place.same] at hsame

lemma has (h : src.Grows grown added lift) (hp : src.Has p) : grown.Has (lift p) := by
  induction hp with
  | refl =>
    rw [h.root]
    exact .refl
  | down hp hc _ ih =>
    exact ih.child (h.lift_mem_children hp (mem_children.mpr ⟨_, _, hc, rfl⟩)).1 rfl

lemma has_added (h : src.Grows grown added lift) : grown.Has added := by
  obtain ⟨p, hp, hchild⟩ := h.child
  exact (h.has (mem_preorder.mp hp)).child hchild rfl

/-- Nothing old stands at or below the new node. -/
lemma not_below (h : src.Grows grown added lift) (hp : src.Has p) : ¬Below added (lift p) := by
  induction hp with
  | refl =>
    intro hbelow
    rw [h.root] at hbelow
    obtain ⟨q, -, hchild⟩ := h.child
    have heq := hbelow.antisymm h.has_added
    have hparent := parent_of_mem_children hchild
    rw [heq] at hparent
    cases hparent
  | @down p index child hp hc _ ih =>
    intro hbelow
    have hmem : p.down index child ∈ p.children := mem_children.mpr ⟨_, _, hc, rfl⟩
    obtain ⟨hchild, hne⟩ := h.lift_mem_children hp hmem
    obtain ⟨i, n, -, heq⟩ := mem_children.mp hchild
    rw [heq] at hbelow hne
    rcases Reach.down_iff.mp hbelow with hsame | ⟨hbelow, -⟩
    · exact hne hsame.symm
    · exact ih hbelow

lemma parent (h : src.Grows grown added lift) (hp : src.Has p) (hq : p.parent = some q) :
    (lift p).parent = some (lift q) := by
  obtain ⟨hhas, hchild⟩ := mem_children_of_parent hp hq
  exact parent_of_mem_children (h.lift_mem_children hhas hchild).1

lemma ancestors (h : src.Grows grown added lift) (hp : src.Has p) :
    (lift p).ancestors = p.ancestors.map lift := by
  induction hp with
  | refl =>
    rw [h.root]
    rfl
  | @down q index child hq hc _ ih =>
    have hmem : q.down index child ∈ q.children := mem_children.mpr ⟨_, _, hc, rfl⟩
    rw [ancestors_of_parent (h.parent (hq.child hmem rfl) (parent_down q index child)),
      ancestors_down, selfAndAncestors, selfAndAncestors, ih, List.map_cons]

lemma parent_root (h : src.Grows grown added lift) : (lift src.rootPlace).parent = none := by
  rw [h.root]
  rfl

/-- No two places become one. -/
lemma inj (h : src.Grows grown added lift) (hp : src.Has p) (hq : src.Has q)
    (heq : lift p = lift q) : p = q := by
  induction hp generalizing q with
  | refl =>
    cases hq with
    | refl => rfl
    | down hq hc _ =>
      have hparent := h.parent (hq.down hc rfl) (parent_down ..)
      rw [← heq, h.parent_root] at hparent
      cases hparent
  | @down p i c hp hc _ ih =>
    have hparent := h.parent (hp.down hc rfl) (parent_down ..)
    cases hq with
    | refl =>
      rw [heq, h.parent_root] at hparent
      cases hparent
    | @down q j d hq hd _ =>
      have hparent' := h.parent (hq.down hd rfl) (parent_down ..)
      rw [heq, hparent'] at hparent
      obtain rfl := ih hq (Option.some.inj hparent).symm
      have hnodup : (p.children.map lift).Nodup := by
        rw [← h.children p (mem_preorder.mpr hp)]
        exact (lift p).children_nodup.filter _
      exact List.inj_on_of_nodup_map hnodup (mem_children.mpr ⟨_, _, hc, rfl⟩)
        (mem_children.mpr ⟨_, _, hd, rfl⟩) heq

lemma same (h : src.Grows grown added lift) (hp : src.Has p) (hq : src.Has q) :
    (lift p).same (lift q) = p.same q := by
  rw [Bool.eq_iff_iff, same_iff (h.has hp) (h.has hq), same_iff hp hq]
  exact ⟨h.inj hp hq, fun heq => heq ▸ rfl⟩

lemma same_added_iff (h : src.Grows grown added lift) (hp : src.Has p)
    (hc : c ∈ (lift p).children) : c.same added = true ↔ c = added :=
  same_iff ((h.has hp).child hc rfl) h.has_added

/-- The children of a node other than the one that got the new child. -/
lemma children_eq (h : src.Grows grown added lift) (hp : src.Has p)
    (hother : added.parent ≠ some (lift p)) : (lift p).children = p.children.map lift := by
  rw [← h.children p (mem_preorder.mpr hp), eq_comm, List.filter_eq_self]
  intro c hc
  rw [Bool.not_eq_true', ← Bool.not_eq_true, h.same_added_iff hp hc]
  rintro rfl
  exact hother (parent_of_mem_children hc)

lemma namedChildren_eq (h : src.Grows grown added lift) (hp : src.Has p)
    (hother : added.parent ≠ some (lift p)) :
    (lift p).namedChildren = p.namedChildren.map lift := by
  rw [namedChildren, h.children_eq hp hother, List.filter_map, namedChildren]
  apply congrArg
  apply List.filter_congr
  intro c hc
  have hchild := hp.child hc rfl
  rw [Function.comp_apply, h.named_eq hchild, h.isComment_eq hchild]

/-- What is collected from children stays the same if the new node adds nothing to it. -/
lemma flatMap_children {α : Type} {g g' : Place → List α} (h : src.Grows grown added lift)
    (hp : src.Has p) (hadded : added ∈ (lift p).children → g' added = [])
    (hkept : ∀ c ∈ p.children, g' (lift c) = g c) :
    (lift p).children.flatMap g' = p.children.flatMap g := by
  have hfilter : (lift p).children.flatMap g' = (p.children.map lift).flatMap g' := by
    rw [← h.children p (mem_preorder.mpr hp), flatMap_filter]
    apply List.flatMap_congr
    intro c hc
    split
    · rfl
    · rename_i hsame
      rw [Bool.not_eq_true', Bool.not_eq_false, h.same_added_iff hp hc] at hsame
      exact hsame ▸ hadded (hsame ▸ hc)
  rw [hfilter, List.flatMap_map]
  exact List.flatMap_congr hkept

lemma filter_children {keep keep' : Place → Bool} (h : src.Grows grown added lift)
    (hp : src.Has p) (hadded : keep' added = false)
    (hkept : ∀ c ∈ p.children, keep' (lift c) = keep c) :
    (lift p).children.filter keep' = (p.children.filter keep).map lift := by
  have hsingle (keep : Place → Bool) (l : List Place) :
      l.filter keep = l.flatMap fun c => if keep c then [c] else [] := by
    rw [← List.flatMap_singleton' (l.filter keep), flatMap_filter]
  rw [hsingle, hsingle, List.map_flatMap]
  refine h.flatMap_children hp (fun _ => by simp [hadded]) fun c hc => ?_
  rw [hkept c hc]
  split <;> rfl

lemma filter_namedChildren {keep keep' : Place → Bool} (h : src.Grows grown added lift)
    (hp : src.Has p) (hadded : keep' added = false)
    (hkept : ∀ c ∈ p.children, keep' (lift c) = keep c) :
    (lift p).namedChildren.filter keep' = (p.namedChildren.filter keep).map lift := by
  rw [namedChildren, List.filter_filter, namedChildren, List.filter_filter]
  refine h.filter_children hp (by simp [hadded]) fun c hc => ?_
  have hchild := hp.child hc rfl
  rw [hkept c hc, h.named_eq hchild, h.isComment_eq hchild]

end Source.Grows

namespace Source

variable {src grown : Source} {added : Place} {lift : Place → Place} {p q : Place}

lemma below_iff_any (hp : src.Has p) (hq : src.Has q) :
    Below p q ↔ q.selfAndAncestors.any (·.same p) = true := by
  rw [List.any_eq_true]
  constructor
  · exact fun hbelow => ⟨p, hbelow.mem_selfAndAncestors, (same_iff hp hp).mpr rfl⟩
  · rintro ⟨x, hx, hsame⟩
    obtain ⟨hhas, hbelow⟩ := below_of_mem_selfAndAncestors hq hx
    exact (same_iff hhas hp).mp hsame ▸ hbelow

lemma eq_of_map_path_eq {places places' : List Place} (h : ∀ p ∈ places, src.Has p)
    (h' : ∀ p ∈ places', src.Has p) (hpath : places.map path = places'.map path) :
    places = places' := by
  induction places generalizing places' with
  | nil =>
    rw [List.map_nil, eq_comm, List.map_eq_nil_iff] at hpath
    exact hpath.symm
  | cons p places ih =>
    obtain ⟨q, places', rfl, hq, hrest⟩ := List.map_eq_cons_iff.mp hpath.symm
    obtain ⟨hp, hplaces⟩ := List.forall_mem_cons.mp h
    obtain ⟨hq', hplaces'⟩ := List.forall_mem_cons.mp h'
    rw [eq_of_path_eq hp hq' hq.symm, ih hplaces hplaces' hrest.symm]

/-- Whether a tree has grown can be told from paths. -/
lemma grows_of_paths (hadded : grown.Has added)
    (hhas : ∀ p ∈ src.rootPlace.preorder, grown.Has (lift p))
    (hroot : (lift src.rootPlace).path = [])
    (hchildren : ∀ p ∈ src.rootPlace.preorder,
      ((lift p).children.filter fun c => !c.same added).map path =
        (p.children.map lift).map path)
    (htag : ∀ p ∈ src.rootPlace.preorder, (lift p).kind = p.kind ∧ (lift p).named = p.named ∧
      (lift p).node.tag.isName = p.node.tag.isName)
    (htext : ∀ p ∈ src.rootPlace.preorder,
      added.selfAndAncestors.any (·.same (lift p)) = true ∨ grown.textOf (lift p) = src.textOf p)
    (hchild : ∃ p ∈ src.rootPlace.preorder, ∃ c ∈ (lift p).children, c.same added = true) :
    src.Grows grown added lift where
  root := eq_of_path_eq (hhas _ (mem_preorder.mpr .refl)) .refl hroot
  children p hp := by
    have hold : ∀ c ∈ (lift p).children.filter fun c => !c.same added, grown.Has c :=
      fun c hc => (hhas p hp).child (List.mem_filter.mp hc).1 rfl
    refine eq_of_map_path_eq hold (fun c hc => ?_) (hchildren p hp)
    obtain ⟨d, hd, rfl⟩ := List.mem_map.mp hc
    exact hhas d (mem_preorder.mpr ((mem_preorder.mp hp).child hd rfl))
  kind p hp := (htag p hp).1
  named p hp := (htag p hp).2.1
  isName p hp := (htag p hp).2.2
  text p hp hout := (htext p hp).resolve_left fun habove =>
    hout ((below_iff_any (hhas p hp) hadded).mpr habove)
  child := by
    obtain ⟨p, hp, c, hc, hsame⟩ := hchild
    exact ⟨p, hp, (same_iff ((hhas p hp).child hc rfl) hadded).mp hsame ▸ hc⟩

end Source

end SpecLens
