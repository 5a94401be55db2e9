import SpecLens.Proofs.Tree.Reach
import SpecLens.Tree.Source

/-!
# Well-nested trees

A tree is well nested if children lie in the ranges of their parents and siblings follow each other.
The places around a byte then form one way down the tree. This file shows that the search for a leaf
ends at the end of that way, and that an anchor leads back to its node.
-/

namespace SpecLens

open Place Text

/-- Whether a place belongs to the tree of a source. -/
abbrev Source.Has (src : Source) (p : Place) : Prop := Below src.rootPlace p

/-- What a parser promises of the ranges in its trees. -/
structure Source.WellNested (src : Source) : Prop where
  inText : src.root.stop ≤ byteLength src.chars
  ranged : ∀ p ∈ src.rootPlace.preorder, p.start ≤ p.stop
  inside : ∀ p ∈ src.rootPlace.preorder, ∀ c ∈ p.children, p.start ≤ c.start ∧ c.stop ≤ p.stop
  ordered : ∀ p ∈ src.rootPlace.preorder, p.children.Pairwise fun a b => a.stop ≤ b.start
  /-- Fixed tokens and comments hold nothing. -/
  tokens : ∀ p ∈ src.rootPlace.preorder,
    p.named = false ∨ p.node.isComment = true → p.node.children = []

/-- Fixed tokens and comments hold nothing. -/
def Source.BareTokens (src : Source) : Prop :=
  ∀ p ∈ src.rootPlace.preorder, p.named = false ∨ p.node.isComment = true → p.node.children = []

/-- Children lie in the ranges of their parents, and siblings follow each other. -/
structure Source.Nested (src : Source) : Prop where
  inside : ∀ p ∈ src.rootPlace.preorder, ∀ c ∈ p.children, p.start ≤ c.start ∧ c.stop ≤ p.stop
  ordered : ∀ p ∈ src.rootPlace.preorder, p.children.Pairwise fun a b => a.stop ≤ b.start

lemma Source.WellNested.bareTokens {src : Source} (h : src.WellNested) : src.BareTokens := h.tokens

lemma Source.WellNested.nested {src : Source} (h : src.WellNested) : src.Nested :=
  ⟨h.inside, h.ordered⟩

/-- A place with a property that stands below all others with it. -/
def Place.Innermost (P : Place → Prop) (p : Place) : Prop := P p ∧ ∀ x, P x → Below x p

lemma Place.Innermost.unique {P : Place → Prop} {p q : Place} (hp : Innermost P p)
    (hq : Innermost P q) : p = q :=
  (hq.2 p hp.1).antisymm (hp.2 q hq.1)

lemma Place.covers_iff {p : Place} {offset : Nat} :
    p.node.covers offset = true ↔ p.start ≤ offset ∧ offset < p.stop := by
  simp [Node.covers, start, stop]

namespace Source.Nested

variable {src : Source} {p q : Place} {offset : Nat}

lemma range_le (h : src.Nested) (hp : src.Has p) (hq : Below p q) :
    p.start ≤ q.start ∧ q.stop ≤ p.stop := by
  induction hq with
  | refl => exact ⟨Nat.le_refl _, Nat.le_refl _⟩
  | @down q index child hq hc _ ih =>
    have := h.inside q (mem_preorder.mpr (hp.trans hq)) _ (mem_children.mpr ⟨index, child, hc, rfl⟩)
    omega

lemma covers_of_below (h : src.Nested) (hp : src.Has p) (hq : Below p q)
    (hc : q.node.covers offset = true) : p.node.covers offset = true := by
  rw [covers_iff] at hc ⊢
  have := h.range_le hp hq
  omega

lemma child_covers_unique (h : src.Nested) (hp : src.Has p) {c d : Place}
    (hc : c ∈ p.children) (hd : d ∈ p.children) (hoc : c.node.covers offset = true)
    (hod : d.node.covers offset = true) : c = d := by
  rw [covers_iff] at hoc hod
  by_contra hne
  have horder := h.ordered p (mem_preorder.mpr hp)
  rcases List.append_of_mem hc with ⟨before, after, heq⟩
  rw [heq, List.pairwise_append, List.pairwise_cons] at horder
  rw [heq, List.mem_append, List.mem_cons] at hd
  rcases hd with hd | rfl | hd
  · have := horder.2.2 d hd c List.mem_cons_self
    omega
  · exact hne rfl
  · have := horder.2.1.1 d hd
    omega

/-- Of two places around one byte, one stands below the other. -/
lemma below_or_below (h : src.Nested) (hp : src.Has p) (hq : src.Has q)
    (hop : p.node.covers offset = true) (hoq : q.node.covers offset = true) :
    Below p q ∨ Below q p := by
  -- Go down from the root as long as both places stand below one child.
  suffices hr : ∀ r, src.Has r → Below r p → Below r q → Below p q ∨ Below q p from
    hr _ .refl hp hq
  intro r
  induction r using Place.inductionOn with
  | step r ih =>
    intro hr hrp hrq
    rcases Reach.iff_child.mp hrp with rfl | ⟨c, hc, -, hcp⟩
    · exact .inl hrq
    rcases Reach.iff_child.mp hrq with rfl | ⟨d, hd, -, hdq⟩
    · exact .inr hrp
    have hrc := hr.child hc rfl
    have hrd := hr.child hd rfl
    have hcd : c = d := h.child_covers_unique hr hc hd (h.covers_of_below hrc hcp hop)
      (h.covers_of_below hrd hdq hoq)
    exact ih c hc hrc hcp (hcd ▸ hdq)

/-- The last of some places around one byte in source order is the innermost of them. -/
lemma getLast?_eq_some_iff (h : src.Nested) {places : List Place} {last : Place}
    (hplaces : ∀ x ∈ places, src.Has x ∧ x.node.covers offset = true)
    (horder : places.Pairwise fun a b => ¬Below b a) :
    places.getLast? = some last ↔ last ∈ places ∧ ∀ x ∈ places, Below x last := by
  have hlast {m : Place} (hm : places.getLast? = some m) : ∀ x ∈ places, Below x m := by
    intro x hx
    have hmem := List.mem_of_getLast? hm
    obtain ⟨before, heq⟩ := List.getLast?_eq_some_iff.mp hm
    rw [heq, List.pairwise_append] at horder
    rw [heq, List.mem_append, List.mem_singleton] at hx
    rcases hx with hbefore | rfl
    · have hnot := horder.2.2 x hbefore m (List.mem_singleton_self m)
      have hx : x ∈ places := heq ▸ List.mem_append_left _ hbefore
      exact (h.below_or_below (hplaces x hx).1 (hplaces m hmem).1 (hplaces x hx).2
        (hplaces m hmem).2).resolve_right hnot
    · exact .refl
  constructor
  · exact fun hm => ⟨List.mem_of_getLast? hm, hlast hm⟩
  · rintro ⟨hmem, hbelow⟩
    cases hm : places.getLast? with
    | none =>
      rw [List.getLast?_eq_none_iff.mp hm] at hmem
      simp at hmem
    | some m =>
      have hle := hlast hm last hmem
      rw [hle.antisymm (hbelow m (List.mem_of_getLast? hm))]

/-- Where some place around a byte has a property, one of them is the innermost. -/
lemma exists_innermost (h : src.Nested) {P : Place → Prop}
    (hP : ∀ x, P x → src.Has x ∧ x.node.covers offset = true) (hp : P p) :
    ∃ m, Innermost P m := by
  classical
  have hmem {x : Place} : x ∈ src.rootPlace.preorder.filter (P ·) ↔ P x := by
    rw [List.mem_filter, mem_preorder, decide_eq_true_eq]
    exact and_iff_right_of_imp fun hx => (hP x hx).1
  obtain ⟨m, hm⟩ := List.getLast?_isSome.mpr (List.ne_nil_of_mem (hmem.mpr hp)) |>
    Option.isSome_iff_exists.mp
  have horder : (src.rootPlace.preorder.filter (P ·)).Pairwise fun a b => ¬Below b a := by
    rw [preorder_eq_visit]
    exact (visit_pairwise _ _).filter _
  obtain ⟨hlast, hall⟩ :=
    (h.getLast?_eq_some_iff (fun x hx => hP x (hmem.mp hx)) horder).mp hm
  exact ⟨m, hmem.mp hlast, fun x hx => hall x (hmem.mpr hx)⟩

end Source.Nested

namespace Place

/-- Whether the search for a range passes over a child. -/
def skips (start stop : Nat) (child : Node) : Bool :=
  child.stop < stop ||
    if child.start = child.stop then decide (child.stop < start) else decide (child.stop ≤ start)

lemma turn_eq (start stop : Nat) (child : Node) :
    turn start stop child =
      if skips start stop child then .skip else if start < child.start then .stop else .enter := by
  unfold turn skips
  by_cases h : child.stop < stop
  · simp [h]
  · by_cases he : child.start = child.stop <;> simp [h, he]

/-- The search enters the first child that it does not pass over, unless that one starts too
late. -/
lemma covering_eq (start stop : Nat) (p : Place) :
    p.covering start stop =
      ((p.children.find? fun c => !skips start stop c.node).bind fun c =>
        if start < c.start then none else some (c.covering start stop)).getD p := by
  have h (cs : List Node) (index : Nat) :
      coveringUnder start stop p.node p.above cs index =
        ((cs.mapIdx fun i c => p.down (index + i) c).find? fun c => !skips start stop c.node).bind
          fun c => if start < c.start then none else some (c.covering start stop) := by
    induction cs generalizing index with
    | nil => rfl
    | cons c cs ih =>
      rw [coveringUnder, turn_eq, List.mapIdx_cons, List.find?_cons]
      by_cases hskip : skips start stop c = true
      · rw [if_pos hskip]
        simp only [down, hskip, Bool.not_true, ih]
        simp only [Nat.add_assoc, Nat.add_comm 1]
      · rw [if_neg hskip]
        simp only [down, hskip, Bool.not_false, Option.bind_some]
        have hstart (above : List (Node × Nat)) : Place.start ⟨c, above⟩ = c.start := rfl
        by_cases hlate : start < c.start
        · simp only [hstart, if_pos hlate]
        · simp only [hstart, if_neg hlate]
          rfl
  have h := h p.node.children 0
  simp only [Nat.zero_add] at h
  obtain ⟨⟨tag, children⟩, above⟩ := p
  exact congrArg (Option.getD · _) h

lemma smallest_eq (offset : Nat) (p : Place) :
    p.smallest offset = ((p.children.find? (·.node.covers offset)).map (smallest · offset)).getD p := by
  have h (cs : List Node) (index : Nat) :
      smallestUnder offset p.node p.above cs index =
        ((cs.mapIdx fun i c => p.down (index + i) c).find? (·.node.covers offset)).map
          (smallest · offset) := by
    induction cs generalizing index with
    | nil => rfl
    | cons c cs ih =>
      rw [smallestUnder, List.mapIdx_cons, List.find?_cons]
      by_cases hc : c.covers offset = true
      · simp only [down, hc, if_true, Option.map_some]
        rfl
      · simp only [down, hc, if_false, ih, Bool.false_eq_true]
        simp only [Nat.add_assoc, Nat.add_comm 1]
  have h := h p.node.children 0
  simp only [Nat.zero_add] at h
  obtain ⟨⟨tag, children⟩, above⟩ := p
  exact congrArg (Option.getD · _) h

lemma covering_spec (first last : Nat) (p : Place) :
    Below p (p.covering first last) ∧
      (p.covering first last = p ∨
        (p.covering first last).start ≤ first ∧ last ≤ (p.covering first last).stop) := by
  induction p using inductionOn with
  | step p ih =>
    rw [covering_eq]
    cases hfound : p.children.find? fun c => !skips first last c.node with
    | none => exact ⟨.refl, .inl rfl⟩
    | some c =>
      have hc := List.mem_of_find?_eq_some hfound
      have hskip := List.find?_some hfound
      by_cases hlate : first < c.start
      · rw [Option.bind_some, if_pos hlate]
        exact ⟨.refl, .inl rfl⟩
      · rw [Option.bind_some, if_neg hlate]
        have hlast : last ≤ c.stop := by
          simp only [skips, Bool.not_or, Bool.and_eq_true, Bool.not_eq_true',
            decide_eq_false_iff_not] at hskip
          exact Nat.le_of_not_lt hskip.1
        refine ⟨(below_of_mem_children hc).trans (ih c hc).1, .inr ?_⟩
        rcases (ih c hc).2 with h | h
        · rw [Option.getD_some, h]
          exact ⟨Nat.le_of_not_lt hlate, hlast⟩
        · exact h

lemma smallest_spec (offset : Nat) (p : Place) :
    Below p (p.smallest offset) ∧
      (p.smallest offset = p ∨ (p.smallest offset).node.covers offset = true) ∧
      ∀ c ∈ (p.smallest offset).children, c.node.covers offset = false := by
  induction p using inductionOn with
  | step p ih =>
    rw [smallest_eq]
    cases hfound : p.children.find? (·.node.covers offset) with
    | none =>
      refine ⟨.refl, .inl rfl, fun c hc => ?_⟩
      simpa using List.find?_eq_none.mp hfound c hc
    | some c =>
      have hc := List.mem_of_find?_eq_some hfound
      obtain ⟨hbelow, hcovers, hnone⟩ := ih c hc
      refine ⟨(below_of_mem_children hc).trans hbelow, .inr ?_, hnone⟩
      rcases hcovers with h | h
      · have hc : c.node.covers offset = true := by simpa using List.find?_some hfound
        rw [Option.map_some, Option.getD_some]
        exact (congrArg (·.node.covers offset) h).trans hc
      · exact h

end Place

namespace Source.WellNested

variable {src : Source} {p leaf : Place} {offset : Nat}

/-- The leaf at an offset stands below every place around the offset. -/
theorem below_leafAt (h : src.WellNested) (hleaf : src.leafAt offset = some leaf)
    (hp : src.Has p) (hc : p.node.covers offset = true) :
    src.Has leaf ∧ leaf.node.covers offset = true ∧ Below p leaf := by
  unfold leafAt at hleaf
  split at hleaf
  · simp at hleaf
  cases Option.some.inj hleaf
  have hroot := h.nested.covers_of_below .refl hp hc
  obtain ⟨hcovering, hcoveringCovers⟩ := covering_spec offset (offset + 1) src.rootPlace
  obtain ⟨hsmallest, hsmallestCovers, hnone⟩ :=
    smallest_spec offset (src.rootPlace.covering offset (offset + 1))
  have hhas := hcovering.trans hsmallest
  have hcovers : (((src.rootPlace.covering offset (offset + 1)).smallest offset)).node.covers
      offset = true := by
    rcases hsmallestCovers with heq | hcovers
    · rw [heq]
      rcases hcoveringCovers with heq | hrange
      · rw [heq]
        exact hroot
      · rw [covers_iff]
        omega
    · exact hcovers
  refine ⟨hhas, hcovers, ?_⟩
  rcases h.nested.below_or_below hp hhas hc hcovers with hbelow | hbelow
  · exact hbelow
  · rcases Reach.iff_child.mp hbelow with rfl | ⟨c, hchild, -, hcp⟩
    · exact .refl
    · have := h.nested.covers_of_below (hhas.child hchild rfl) hcp hc
      rw [hnone c hchild] at this
      simp at this

lemma leafAt_isSome (h : src.WellNested) (hp : src.Has p) (hc : p.node.covers offset = true) :
    ∃ leaf, src.leafAt offset = some leaf := by
  have hroot := covers_iff.mp (h.nested.covers_of_below .refl hp hc)
  have hlt : ¬byteLength src.chars ≤ offset := by
    have := h.inText
    have : src.rootPlace.stop = src.root.stop := rfl
    omega
  exact ⟨_, if_neg hlt⟩

end Source.WellNested

end SpecLens
