import SpecLens.Proofs.Tree.Nesting

/-!
# Anchors lead back

The node an anchor names is found again by its kind and range: the search for the range ends at or
below the node, and the climb from there stays within nodes of the same range.
-/

namespace SpecLens

open Place

namespace Place

lemma climbTo?_eq_some {kind : String} {start stop : Nat} {places : List Place} {p : Place}
    (h : climbTo? kind start stop places = some p) :
    p ∈ places ∧ p.kind = kind ∧ p.start = start ∧ p.stop = stop := by
  induction places with
  | nil => simp [climbTo?] at h
  | cons q rest ih =>
    rw [climbTo?.eq_def] at h
    simp only at h
    split at h
    · rename_i hq
      cases Option.some.inj h
      simp only [Bool.and_eq_true, decide_eq_true_eq] at hq
      exact ⟨List.mem_cons_self, hq.1.1, hq.1.2, hq.2⟩
    · cases rest with
      | nil => simp at h
      | cons r rest =>
        simp only at h
        split at h
        · obtain ⟨hmem, hp⟩ := ih h
          exact ⟨List.mem_cons_of_mem _ hmem, hp⟩
        · simp at h

/-- The climb passes over nodes of the range that have another kind. -/
lemma climbTo?_append {p : Place} {before after : List Place}
    (h : ∀ x ∈ before, x.kind ≠ p.kind ∧ x.start = p.start ∧ x.stop = p.stop) :
    climbTo? p.kind p.start p.stop (before ++ p :: after) = some p := by
  induction before with
  | nil => simp [climbTo?]
  | cons x before ih =>
    obtain ⟨⟨hkind, hstart, hstop⟩, hbefore⟩ := List.forall_mem_cons.mp h
    rw [List.cons_append, climbTo?.eq_def]
    simp only [hkind, decide_false, Bool.false_and, Bool.false_eq_true, if_false]
    cases before with
    | nil => simpa using ih hbefore
    | cons y before =>
      have hy := (hbefore y List.mem_cons_self).2
      simpa [hy.1, hy.2] using ih hbefore

end Place

/-- Whether an anchor has the kind and the range of a place. -/
def Anchor.Names (a : Anchor) (p : Place) : Prop :=
  p.kind = a.kind ∧ p.start = a.startByte ∧ p.stop = a.endByte

namespace Source

variable {src : Source} {p q : Place}

lemma has_of_resolve_eq_some {kind : String} {start stop : Nat}
    (h : src.resolve kind start stop = some p) :
    src.Has p ∧ p.kind = kind ∧ p.start = start ∧ p.stop = stop := by
  obtain ⟨hmem, hp⟩ := climbTo?_eq_some h
  have hcovering := (covering_spec start stop src.rootPlace).1
  exact ⟨(below_of_mem_selfAndAncestors hcovering hmem).1, hp⟩

/-- The search for a range passes by every place that covers it. -/
lemma Nested.below_covering (h : src.Nested) {first last : Nat} (hlt : first < last)
    (hp : src.Has p) (hq : Below p q) (hfirst : q.start ≤ first) (hlast : last ≤ q.stop) :
    Below q (p.covering first last) := by
  induction p using Place.inductionOn with
  | step p ih =>
    rcases Reach.iff_child.mp hq with rfl | ⟨c, hc, -, hcq⟩
    · exact (covering_spec first last q).1
    have hrange := h.range_le (hp.child hc rfl) hcq
    obtain ⟨before, after, heq⟩ := List.append_of_mem hc
    have horder := h.ordered p (mem_preorder.mpr hp)
    rw [heq, List.pairwise_append] at horder
    have hfound : p.children.find? (fun d => !skips first last d.node) = some c := by
      rw [List.find?_eq_some_iff_append]
      refine ⟨?_, before, after, heq, fun d hd => ?_⟩
      · have hstart : c.node.start = c.start := rfl
        have hstop : c.node.stop = c.stop := rfl
        simp only [skips, hstart, hstop]
        split <;> simp <;> omega
      · have hbefore := horder.2.2 d hd c List.mem_cons_self
        have : d.node.stop < last := by
          have : d.node.stop = d.stop := rfl
          omega
        simp [skips, this]
    rw [covering_eq, hfound, Option.bind_some, if_neg (by omega), Option.getD_some]
    exact ih c hc (hp.child hc rfl) hcq

/-- An anchor leads back to its node if the node has a range and none below it shares kind and
range with it. -/
theorem Nested.resolve_eq (h : src.Nested) (hp : src.Has p) (hlt : p.start < p.stop)
    (hinner : ∀ x, Below p x → x.kind = p.kind → x.start = p.start → x.stop = p.stop → x = p) :
    src.resolve p.kind p.start p.stop = some p := by
  have hbelow := h.below_covering hlt .refl hp (Nat.le_refl _) (Nat.le_refl _)
  obtain ⟨hroot, hcovering⟩ := covering_spec p.start p.stop src.rootPlace
  have hrange : (src.rootPlace.covering p.start p.stop).start ≤ p.start ∧
      p.stop ≤ (src.rootPlace.covering p.start p.stop).stop := by
    rcases hcovering with heq | hrange
    · rw [heq]
      exact h.range_le .refl hp
    · exact hrange
  obtain ⟨between, heq, hbetween⟩ := hbelow.selfAndAncestors_eq
  rw [resolve, heq, selfAndAncestors]
  apply climbTo?_append
  intro x hx
  obtain ⟨hpx, hne, -⟩ := hbetween x hx
  have hxr := (below_of_mem_selfAndAncestors hroot (heq ▸ List.mem_append_left _ hx)).2
  have hinside := h.range_le hp hpx
  have haround := h.range_le (hp.trans hpx) hxr
  have hstart : x.start = p.start := by omega
  have hstop : x.stop = p.stop := by omega
  exact ⟨fun hkind => hne (hinner x hpx hkind hstart hstop), hstart, hstop⟩

/-- Of the places that an anchor with a range names, one is the innermost. -/
lemma Nested.exists_innermost_named (h : src.Nested) {a : Anchor} (hlt : a.startByte < a.endByte)
    (hp : src.Has p) (hnames : a.Names p) :
    ∃ m, Innermost (fun q => src.Has q ∧ a.Names q) m := by
  -- All places of the range are around its first byte.
  have haround : ∀ x, src.Has x ∧ a.Names x → src.Has x ∧ x.node.covers a.startByte = true := by
    rintro x ⟨hx, -, hstart, hstop⟩
    exact ⟨hx, covers_iff.mpr (by omega)⟩
  exact h.exists_innermost haround ⟨hp, hnames⟩

lemma Nested.resolve_of_innermost (h : src.Nested) {a : Anchor} (hlt : a.startByte < a.endByte)
    (hp : Innermost (fun q => src.Has q ∧ a.Names q) p) :
    src.resolve a.kind a.startByte a.endByte = some p := by
  obtain ⟨⟨hhas, hkind, hstart, hstop⟩, hinner⟩ := hp
  rw [← hkind, ← hstart, ← hstop]
  refine h.resolve_eq hhas (by omega) fun x hx hxkind hxstart hxstop => ?_
  have hxnames : a.Names x := ⟨hxkind.trans hkind, hxstart.trans hstart, hxstop.trans hstop⟩
  exact (hinner x ⟨hhas.trans hx, hxnames⟩).antisymm hx

lemma Nested.resolve_eq_some_iff (h : src.Nested) {a : Anchor} (hlt : a.startByte < a.endByte) :
    src.resolve a.kind a.startByte a.endByte = some p ↔
      Innermost (fun q => src.Has q ∧ a.Names q) p := by
  refine ⟨fun hp => ?_, h.resolve_of_innermost hlt⟩
  obtain ⟨hhas, hnames⟩ := has_of_resolve_eq_some hp
  obtain ⟨m, hm⟩ := h.exists_innermost_named hlt hhas hnames
  cases hp.symm.trans (h.resolve_of_innermost hlt hm)
  exact hm

/-- An anchor with a range leads to a node if and only if the tree has one of its kind and range,
and then to the innermost one. So the anchor of a node with a range leads back to the node, unless
another node of its kind and range stands below it. -/
theorem Nested.resolve_innermost (h : src.Nested) :
    (∀ a : Anchor, a.startByte < a.endByte →
      ((src.resolve a.kind a.startByte a.endByte).isSome = true ↔
        ∃ p, src.Has p ∧ a.Names p) ∧
      ∀ p, src.resolve a.kind a.startByte a.endByte = some p ↔
        Innermost (fun q => src.Has q ∧ a.Names q) p) ∧
    ∀ p, src.Has p → p.start < p.stop →
      (∀ x, Below p x → (src.anchorOf p).Names x → x = p) →
      src.resolve (src.anchorOf p).kind (src.anchorOf p).startByte (src.anchorOf p).endByte =
        some p := by
  refine ⟨fun a hlt => ⟨⟨fun hsome => ?_, ?_⟩, fun p => h.resolve_eq_some_iff hlt⟩,
    fun p hp hlt hinner => ?_⟩
  · obtain ⟨p, hp⟩ := Option.isSome_iff_exists.mp hsome
    exact ⟨p, has_of_resolve_eq_some hp⟩
  · rintro ⟨p, hp, hnames⟩
    obtain ⟨m, hm⟩ := h.exists_innermost_named hlt hp hnames
    rw [h.resolve_of_innermost hlt hm, Option.isSome_some]
  · exact h.resolve_eq hp hlt fun x hx hkind hstart hstop =>
      hinner x hx ⟨hkind, hstart, hstop⟩

end Source

/-- One type reference in another of its range, with an empty node behind it. -/
def stackedTypes : Source where
  chars := "a.b".toList
  root := .node ⟨"user_type", true, false, false, false, 0, 3⟩ [
    .node ⟨"user_type", true, false, false, false, 0, 3⟩ [
      .node ⟨"identifier", true, false, false, false, 0, 1⟩ [],
      .node ⟨".", false, false, false, false, 1, 2⟩ [],
      .node ⟨"identifier", true, false, false, false, 2, 3⟩ []],
    .node ⟨"user_type", true, false, false, true, 3, 3⟩ []]

/-- The anchor of both references leads to the inner one. -/
theorem stackedTypes_resolve : stackedTypes.Nested ∧
    ∃ p, stackedTypes.resolve "user_type" 0 3 = some p ∧ p.path = [0] ∧
      ∀ q, stackedTypes.Has q → q.kind = "user_type" → q.start = 0 → q.stop = 3 → Below q p := by
  have hnested : stackedTypes.Nested := ⟨by decide, by decide⟩
  have hpath : (stackedTypes.resolve "user_type" 0 3).map path = some [0] := by decide +kernel
  obtain ⟨hiff, hinner⟩ := (Source.Nested.resolve_innermost hnested).1
    (stackedTypes.anchorOf stackedTypes.rootPlace) (by decide)
  obtain ⟨p, hp⟩ := Option.isSome_iff_exists.mp
    (hiff.mpr ⟨stackedTypes.rootPlace, .refl, rfl, rfl, rfl⟩)
  refine ⟨hnested, p, hp, ?_, fun q hq hkind hstart hstop =>
    ((hinner p).mp hp).2 q ⟨hq, hkind, hstart, hstop⟩⟩
  rw [show stackedTypes.resolve "user_type" 0 3 = some p from hp] at hpath
  exact Option.some.inj hpath

end SpecLens
