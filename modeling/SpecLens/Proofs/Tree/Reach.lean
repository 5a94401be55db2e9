import Mathlib.Data.List.Flatten
import Mathlib.Data.List.Nodup
import Mathlib.Data.List.Pairwise
import Mathlib.Data.List.Perm.Subperm
import Mathlib.Order.Basic
import SpecLens.Tree.Place

/-!
# Places reached from a place

`Reach keep p q` says that the way from `p` down to `q` enters only nodes that `keep` accepts, and
`Below p q` that there is such a way at all. This file connects both to the walks over a tree:
`visit keep p` lists the places reached from `p`, each once and none before one above it, and every
walk of the library is a `visit`.
-/

namespace SpecLens.Place

/-- `q` is `p`, or it is reached from `p` through children that `keep` accepts. -/
inductive Reach (keep : Node → Bool) (p : Place) : Place → Prop
  | refl : Reach keep p p
  | down {q : Place} {index : Nat} {child : Node} : Reach keep p q →
    q.node.children[index]? = some child → keep child = true → Reach keep p (q.down index child)

/-- `q` is `p` or stands somewhere below it. -/
abbrev Below : Place → Place → Prop := Reach fun _ => true

lemma mem_children {p c : Place} :
    c ∈ p.children ↔ ∃ index child, p.node.children[index]? = some child ∧ c = p.down index child := by
  simp only [children, List.mem_mapIdx]
  constructor
  · rintro ⟨index, hi, rfl⟩
    exact ⟨index, p.node.children[index], List.getElem?_eq_getElem hi, rfl⟩
  · rintro ⟨index, child, hc, rfl⟩
    obtain ⟨hi, hc⟩ := List.getElem?_eq_some_iff.mp hc
    exact ⟨index, hi, by rw [hc]⟩

lemma parent_of_mem_children {p c : Place} (h : c ∈ p.children) : c.parent = some p := by
  obtain ⟨index, child, -, rfl⟩ := mem_children.mp h
  rfl

lemma children_nodup (p : Place) : p.children.Nodup := by
  rw [List.nodup_iff_injective_getElem]
  intro i j h
  have hpath := congrArg path h
  simp only [children, List.getElem_mapIdx, path_down, List.cons.injEq, and_true] at hpath
  exact Fin.ext hpath

lemma down_inj {p q : Place} {i j : Nat} {c d : Node} (h : p.down i c = q.down j d) :
    p = q ∧ i = j ∧ c = d := by
  obtain ⟨node, above⟩ := p
  obtain ⟨node', above'⟩ := q
  simp only [down, mk.injEq, List.cons.injEq, Prod.mk.injEq] at h
  obtain ⟨rfl, ⟨rfl, rfl⟩, rfl⟩ := h
  exact ⟨rfl, rfl, rfl⟩

lemma ancestors_of_parent {p q : Place} (h : p.parent = some q) :
    p.ancestors = q.selfAndAncestors := by
  obtain ⟨node, above⟩ := p
  cases above with
  | nil => simp [parent] at h
  | cons step above =>
    cases Option.some.inj h
    rfl

/-- What follows a place among those above another one are the places above it. -/
lemma eq_ancestors_of_append {p q : Place} {before after : List Place}
    (h : p.selfAndAncestors = before ++ q :: after) : after = q.ancestors := by
  induction before generalizing p with
  | nil =>
    obtain ⟨rfl, rfl⟩ := List.cons.inj h
    rfl
  | cons x before ih =>
    have h : p.ancestors = before ++ q :: after := (List.cons.inj h).2
    cases hparent : p.parent with
    | none =>
      obtain ⟨node, _ | ⟨step, above⟩⟩ := p
      · simp [ancestors, alongWay] at h
      · simp [parent] at hparent
    | some r => exact ih ((ancestors_of_parent hparent).symm.trans h)

namespace Reach

variable {keep : Node → Bool} {p q r : Place}

lemma child (h : Reach keep p q) {c : Place} (hc : c ∈ q.children) (hk : keep c.node = true) :
    Reach keep p c := by
  obtain ⟨index, child, hchild, rfl⟩ := mem_children.mp hc
  exact h.down hchild hk

lemma trans (h : Reach keep p q) (h' : Reach keep q r) : Reach keep p r := by
  induction h' with
  | refl => exact h
  | down _ hc hk ih => exact ih.down hc hk

lemma mono {keep' : Node → Bool} (h : Reach keep p q)
    (hk : ∀ n, keep n = true → keep' n = true) : Reach keep' p q := by
  induction h with
  | refl => exact .refl
  | down _ hc hn ih => exact ih.down hc (hk _ hn)

lemma toBelow (h : Reach keep p q) : Below p q := h.mono fun _ _ => rfl

/-- The place at the end of a way is accepted unless the way starts there. -/
lemma eq_or_keep (h : Reach keep p q) : q = p ∨ keep q.node = true := by
  cases h with
  | refl => exact .inl rfl
  | down _ _ hk => exact .inr hk

/-- The first step of a way. -/
lemma iff_child :
    Reach keep p q ↔ q = p ∨ ∃ c ∈ p.children, keep c.node = true ∧ Reach keep c q := by
  constructor
  · intro h
    induction h with
    | refl => exact .inl rfl
    | @down q index child _ hc hk ih =>
      right
      rcases ih with rfl | ⟨c, hcp, hkc, hcq⟩
      · exact ⟨_, mem_children.mpr ⟨index, child, hc, rfl⟩, hk, .refl⟩
      · exact ⟨c, hcp, hkc, hcq.down hc hk⟩
  · rintro (rfl | ⟨c, hc, hk, h⟩)
    · exact .refl
    · exact (refl.child hc hk).trans h

/-- The last step of a way. -/
lemma down_iff {index : Nat} {child : Node} :
    Reach keep p (q.down index child) ↔ p = q.down index child ∨
      Reach keep p q ∧ q.node.children[index]? = some child ∧ keep child = true := by
  constructor
  · intro h
    generalize hx : q.down index child = x at h
    cases h with
    | refl => exact .inl rfl
    | down h hc hk =>
      obtain ⟨rfl, rfl, rfl⟩ := down_inj hx
      exact .inr ⟨h, hc, hk⟩
  · rintro (h | ⟨h, hc, hk⟩)
    · exact h ▸ .refl
    · exact h.down hc hk

lemma length_le (h : Reach keep p q) : p.above.length ≤ q.above.length := by
  induction h with
  | refl => exact Nat.le_refl _
  | down _ _ _ ih =>
    simp only [Place.down, List.length_cons]
    omega

lemma down_ne (h : Reach keep p q) (index : Nat) (child : Node) : q.down index child ≠ p := by
  intro heq
  have hle := h.length_le
  rw [← heq] at hle
  simp only [Place.down, List.length_cons] at hle
  omega

lemma eq_of_length_le (h : Reach keep p q) (hl : q.above.length ≤ p.above.length) : q = p := by
  cases h with
  | refl => rfl
  | down h _ _ =>
    have := h.length_le
    simp only [Place.down, List.length_cons] at hl
    omega

lemma antisymm (h : Reach keep p q) (h' : Below q p) : p = q :=
  (h.eq_of_length_le h'.length_le).symm

/-- The places on the way, with the one at its end. -/
lemma mem_selfAndAncestors (h : Reach keep p q) : p ∈ q.selfAndAncestors := by
  induction h with
  | refl => exact List.mem_cons_self
  | down _ _ _ ih => exact List.mem_cons_of_mem _ ih

/-- The places on the way, apart from the one it starts from. -/
lemma selfAndAncestors_eq (h : Reach keep p q) :
    ∃ between, q.selfAndAncestors = between ++ p.selfAndAncestors ∧
      ∀ x ∈ between, Reach keep p x ∧ x ≠ p ∧ keep x.node = true := by
  induction h with
  | refl => exact ⟨[], rfl, by simp⟩
  | @down q index child h hc hk ih =>
    obtain ⟨between, heq, hbetween⟩ := ih
    refine ⟨q.down index child :: between, ?_, ?_⟩
    · rw [List.cons_append, ← heq]
      rfl
    · rw [List.forall_mem_cons]
      exact ⟨⟨h.down hc hk, h.down_ne index child, hk⟩, hbetween⟩

/-- A place between both ends of a way is reached, too. -/
lemma of_below (h : Reach keep p r) (hp : Below p q) (hq : Below q r) : Reach keep p q := by
  induction h with
  | refl =>
    rw [hp.antisymm hq]
    exact .refl
  | down h hc hk ih =>
    rcases down_iff.mp hq with rfl | ⟨hq, -, -⟩
    · exact h.down hc hk
    · exact ih hq

/-- A way whose places are all accepted is one that enters accepted nodes only. -/
lemma of_forall (h : Below p q)
    (hk : ∀ x, Below p x → x ≠ p → Below x q → keep x.node = true) : Reach keep p q := by
  induction h with
  | refl => exact .refl
  | @down q index child h hc _ ih =>
    have hq : Reach keep p q := ih fun x hpx hne hxq => hk x hpx hne (hxq.down hc rfl)
    exact hq.down hc (hk _ (h.down hc rfl) (h.down_ne index child) .refl)

end Reach

lemma below_of_mem_children {p c : Place} (h : c ∈ p.children) : Below p c :=
  Reach.refl.child h rfl

lemma eq_of_below_token {p x : Place} (hp : p.node.children = []) (hx : Below p x) : x = p := by
  rcases Reach.iff_child.mp hx with rfl | ⟨c, hc, -⟩
  · rfl
  · obtain ⟨index, child, hchild, -⟩ := mem_children.mp hc
    simp [hp] at hchild

/-- Every place above one of a tree is a place of that tree. -/
lemma below_of_mem_selfAndAncestors {n : Node} {p q : Place} (hq : Below (root n) q)
    (hp : p ∈ q.selfAndAncestors) : Below (root n) p ∧ Below p q := by
  induction hq with
  | refl =>
    have hp : p = root n := by simpa [selfAndAncestors, ancestors, root, alongWay] using hp
    rw [hp]
    exact ⟨.refl, .refl⟩
  | down hq hc hk ih =>
    rcases List.mem_cons.mp hp with rfl | hp
    · exact ⟨hq.down hc hk, .refl⟩
    · exact ⟨(ih hp).1, (ih hp).2.down hc hk⟩

lemma mem_children_of_parent {n : Node} {p q : Place} (hq : Below (root n) q)
    (h : q.parent = some p) : Below (root n) p ∧ q ∈ p.children := by
  cases hq with
  | refl => simp [root, parent] at h
  | down hp hc _ =>
    cases Option.some.inj h
    exact ⟨hp, mem_children.mpr ⟨_, _, hc, rfl⟩⟩

/-- Places of one tree are told apart by their paths. -/
lemma eq_of_path_eq {r p q : Place} (hp : Below r p) (hq : Below r q) (h : p.path = q.path) :
    p = q := by
  have hlength (x : Place) : x.path.length = x.above.length := List.length_map _
  induction hp generalizing q with
  | refl =>
    have heq := congrArg List.length h
    simp only [hlength] at heq
    exact (hq.eq_of_length_le (by omega)).symm
  | down hp hc _ ih =>
    cases hq with
    | refl =>
      have := hp.length_le
      have := congrArg List.length h
      simp only [hlength, down, List.length_cons] at this
      omega
    | down hq hd _ =>
      obtain ⟨rfl, hpath⟩ := List.cons.inj h
      cases ih hq hpath
      rw [hc] at hd
      cases hd
      rfl

lemma same_iff {r p q : Place} (hp : Below r p) (hq : Below r q) : p.same q = true ↔ p = q := by
  simp only [same, beq_iff_eq]
  exact ⟨eq_of_path_eq hp hq, fun h => h ▸ rfl⟩

/-- A place stands below one child at most. -/
lemma child_unique {p c d x : Place} (hc : c ∈ p.children) (hd : d ∈ p.children)
    (hcx : Below c x) (hdx : Below d x) : c = d := by
  have hparents := (parent_of_mem_children hc).trans (parent_of_mem_children hd).symm
  induction hcx with
  | refl =>
    obtain ⟨_, _, _, rfl⟩ := mem_children.mp hc
    obtain ⟨_, _, _, rfl⟩ := mem_children.mp hd
    exact hdx.eq_of_length_le (by simp [down])
  | down hcx hn hk ih =>
    rcases Reach.down_iff.mp hdx with rfl | ⟨hdx, -, -⟩
    · have := hcx.length_le
      obtain ⟨_, _, _, rfl⟩ := mem_children.mp hc
      simp only [parent_down, Option.some.injEq] at hparents
      subst hparents
      simp only [down, List.length_cons] at this
      omega
    · exact ih hdx

/-- Induction from the children of a place to the place. -/
theorem inductionOn {motive : Place → Prop} (p : Place)
    (step : ∀ p, (∀ c ∈ p.children, motive c) → motive p) : motive p := by
  obtain ⟨node, above⟩ := p
  -- Nodes get smaller on the way down while the way itself grows.
  induction h : sizeOf node using Nat.strongRecOn generalizing node above with
  | ind size ih =>
    apply step
    intro c hc
    obtain ⟨index, child, hchild, rfl⟩ := mem_children.mp hc
    have hlt : sizeOf child < sizeOf node := by
      obtain ⟨tag, children⟩ := node
      have := List.sizeOf_lt_of_mem (List.mem_of_getElem? hchild)
      simp only [Node.children] at this
      simp only [Node.node.sizeOf_spec]
      omega
    exact ih _ (h ▸ hlt) child _ rfl

/-! ### Walks -/

mutual

def visitOf (keep : Node → Bool) : Node → List (Node × Nat) → List Place
  | .node tag children, above =>
    ⟨.node tag children, above⟩ :: visitUnder keep (.node tag children) above children 0

def visitUnder (keep : Node → Bool) (parent : Node) (above : List (Node × Nat)) :
    List Node → Nat → List Place
  | [], _ => []
  | child :: rest, index =>
    (if keep child then visitOf keep child ((parent, index) :: above) else []) ++
      visitUnder keep parent above rest (index + 1)

end

/-- The places reached from `p`, in source order. -/
def visit (keep : Node → Bool) (p : Place) : List Place := visitOf keep p.node p.above

lemma flatMap_filter {α β : Type} (l : List α) (keep : α → Bool) (f : α → List β) :
    (l.filter keep).flatMap f = l.flatMap fun a => if keep a then f a else [] := by
  induction l with
  | nil => rfl
  | cons a l ih =>
    rw [List.filter_cons, List.flatMap_cons]
    split <;> simp [ih]

/-- A walk over the children of a place, one after the other, joins what it finds at each of
them. -/
lemma eq_flatMap_children {α : Type} (p : Place) (under : List Node → Nat → List α)
    (visitor : Place → List α) (hnil : ∀ index, under [] index = [])
    (hcons : ∀ child rest index, under (child :: rest) index =
      visitor (p.down index child) ++ under rest (index + 1)) :
    under p.node.children 0 = p.children.flatMap visitor := by
  have h (cs : List Node) (index : Nat) :
      under cs index = (cs.mapIdx fun i c => p.down (index + i) c).flatMap visitor := by
    induction cs generalizing index with
    | nil => simp [hnil]
    | cons c cs ih =>
      rw [hcons, ih, List.mapIdx_cons, List.flatMap_cons]
      simp only [Nat.add_zero, Nat.add_assoc, Nat.add_comm 1]
  rw [h]
  simp only [Nat.zero_add, children]

lemma visit_eq (keep : Node → Bool) (p : Place) :
    visit keep p =
      p :: p.children.flatMap fun c => if keep c.node then visit keep c else [] := by
  obtain ⟨⟨tag, children⟩, above⟩ := p
  have h := eq_flatMap_children ⟨.node tag children, above⟩
    (visitUnder keep (.node tag children) above)
    (fun c => if keep c.node then visit keep c else [])
    (fun _ => by rw [visitUnder]) (fun _ _ _ => by rw [visitUnder]; rfl)
  rw [visit, visitOf]
  exact congrArg (_ :: ·) h

lemma visit_tail (keep : Node → Bool) (p : Place) :
    (visit keep p).tail = p.children.flatMap fun c => if keep c.node then visit keep c else [] := by
  rw [visit_eq, List.tail_cons]

lemma preorder_eq (p : Place) : p.preorder = p :: p.children.flatMap preorder := by
  have h := eq_flatMap_children p (preorderUnder p.node p.above) preorder
    (fun _ => by rw [preorderUnder]) (fun _ _ _ => by rw [preorderUnder]; rfl)
  obtain ⟨⟨tag, children⟩, above⟩ := p
  rw [preorder, preorderOf]
  exact congrArg (_ :: ·) h

lemma preorder_eq_visit (p : Place) : p.preorder = visit (fun _ => true) p := by
  induction p using inductionOn with
  | step p ih =>
    rw [preorder_eq, visit_eq]
    simp only [if_true]
    rw [List.flatMap_congr ih]

variable {keep : Node → Bool} {p q : Place}

lemma mem_visit : q ∈ visit keep p ↔ Reach keep p q := by
  induction p using inductionOn with
  | step p ih =>
    rw [visit_eq, Reach.iff_child, List.mem_cons, List.mem_flatMap]
    refine or_congr_right (exists_congr fun c => and_congr_right fun hc => ?_)
    by_cases hk : keep c.node = true
    · simp [hk, ih c hc]
    · simp [hk]

lemma mem_preorder : q ∈ p.preorder ↔ Below p q := by
  rw [preorder_eq_visit, mem_visit]

/-- No place comes before one above it, and none comes twice. -/
lemma visit_pairwise (keep : Node → Bool) (p : Place) :
    (visit keep p).Pairwise fun a b => ¬Below b a := by
  induction p using inductionOn with
  | step p ih =>
    rw [visit_eq, List.pairwise_cons, List.pairwise_flatMap]
    refine ⟨fun b hb hbelow => ?_, fun c hc => ?_, ?_⟩
    · obtain ⟨c, hc, hb⟩ := List.mem_flatMap.mp hb
      have hcb : Below c b := by
        split at hb
        · exact (mem_visit.mp hb).toBelow
        · simp at hb
      have hle := (hcb.trans hbelow).length_le
      obtain ⟨_, _, _, rfl⟩ := mem_children.mp hc
      simp only [down, List.length_cons] at hle
      omega
    · split
      · exact ih c hc
      · exact .nil
    · refine p.children_nodup.imp_of_mem fun hc hd hne a ha b hb hbelow => ?_
      split at ha
      · split at hb
        · have hda := (mem_visit.mp hb).toBelow.trans hbelow
          exact hne (child_unique hc hd (mem_visit.mp ha).toBelow hda)
        · simp at hb
      · simp at ha

lemma visit_sublist_preorder (keep : Node → Bool) (p : Place) :
    (visit keep p).Sublist p.preorder := by
  induction p using inductionOn with
  | step p ih =>
    rw [preorder_eq, visit_eq]
    refine .cons_cons p (.flatMap_right _ fun c hc => ?_)
    split
    · exact ih c hc
    · exact List.nil_sublist _

lemma preorder_sublist (h : Below p q) : q.preorder.Sublist p.preorder := by
  induction p using inductionOn with
  | step p ih =>
    rcases Reach.iff_child.mp h with rfl | ⟨c, hc, -, hcq⟩
    · exact .refl _
    · have hchild : c.preorder.Sublist (p.children.flatMap preorder) :=
        List.sublist_flatten_of_mem (List.mem_map_of_mem hc)
      rw [preorder_eq p]
      exact ((ih c hc hcq).trans hchild).trans (List.sublist_cons_self _ _)

lemma visit_nodup (keep : Node → Bool) (p : Place) : (visit keep p).Nodup := by
  refine (visit_pairwise keep p).imp ?_
  rintro a b h rfl
  exact h .refl

lemma preorder_nodup (p : Place) : p.preorder.Nodup := by
  rw [preorder_eq_visit]
  exact visit_nodup _ p

lemma mem_visit_tail : q ∈ (visit keep p).tail ↔ Reach keep p q ∧ q ≠ p := by
  have hnodup := visit_nodup keep p
  rw [visit_eq, List.nodup_cons] at hnodup
  rw [← mem_visit, visit_eq, List.tail_cons, List.mem_cons]
  constructor
  · intro hq
    exact ⟨.inr hq, fun heq => hnodup.1 (heq ▸ hq)⟩
  · rintro ⟨rfl | hq, hne⟩
    · exact (hne rfl).elim
    · exact hq

lemma mem_preorder_tail : q ∈ p.preorder.tail ↔ Below p q ∧ q ≠ p := by
  rw [preorder_eq_visit, mem_visit_tail]

/-- A walk skips parts of a tree but never reorders it, so equal members are enough. -/
lemma filter_eq_filter_of_sublist {α : Type} {l m : List α} {f g : α → Bool} (h : l.Sublist m)
    (hm : m.Nodup) (hiff : ∀ a, a ∈ l.filter f ↔ a ∈ m.filter g) : l.filter f = m.filter g := by
  have hfg : l.filter f = l.filter g := by
    apply List.filter_congr
    intro a ha
    have := hiff a
    rw [List.mem_filter, List.mem_filter, and_iff_right ha, and_iff_right (h.subset ha)] at this
    exact Bool.eq_iff_iff.mpr this
  have hpart : (l.filter f).Sublist (m.filter g) := hfg ▸ h.filter g
  exact hpart.eq_of_length_le ((hm.filter g).length_le_of_subset fun a ha => (hiff a).mpr ha)

end SpecLens.Place
