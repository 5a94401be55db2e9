import SpecLens.Proofs.Kotlin.Comment
import SpecLens.Proofs.Tree.Anchor

/-!
# Anchors without comments

The search for a range may end in a comment, and the climb from there goes on in the node above it.
Without the comment the search ends in that node, so an anchor leads to the same node.
-/

namespace SpecLens

open Kotlin Place Text

namespace Kotlin

variable {src : Source} {p q : Place} {first last : Nat} {kind : String}

lemma isBareComment_of_mem_ancestors (hp : src.Has p) (hq : q ∈ p.ancestors) :
    isBareComment q = false := by
  induction hp with
  | refl => simp [Source.rootPlace, Place.root, ancestors, alongWay] at hq
  | @down r index child _ hchild _ ih =>
    rcases List.mem_cons.mp hq with rfl | hq
    · exact isBareComment_of_child (mem_children.mpr ⟨index, child, hchild, rfl⟩)
    · exact ih hq

lemma selfAndAncestors_withoutComments (hp : src.Has p) (hkept : isBareComment p = false) :
    p.withoutComments.selfAndAncestors = p.selfAndAncestors.map withoutComments := by
  have hall : ∀ q ∈ p.selfAndAncestors, (!isBareComment q) = true := by
    rw [selfAndAncestors, List.forall_mem_cons]
    exact ⟨by simp [hkept], fun q hq => by simp [isBareComment_of_mem_ancestors hp hq]⟩
  rw [selfAndAncestors_without hkept, List.filter_eq_self.mpr hall]

lemma climbTo?_map {f : Place → Place} (hf : ∀ p, (f p).node.tag = p.node.tag)
    (places : List Place) :
    climbTo? kind first last (places.map f) = (climbTo? kind first last places).map f := by
  have hkind (p : Place) : (f p).kind = p.kind := congrArg Tag.kind (hf p)
  have hstart (p : Place) : (f p).start = p.start := congrArg Tag.start (hf p)
  have hstop (p : Place) : (f p).stop = p.stop := congrArg Tag.stop (hf p)
  induction places with
  | nil => rfl
  | cons p rest ih =>
    rw [List.map_cons, climbTo?.eq_def, climbTo?.eq_def kind first last (p :: rest)]
    simp only [hkind, hstart, hstop]
    split
    · rfl
    · cases rest with
      | nil => rfl
      | cons q rest =>
        rw [List.map_cons] at ih ⊢
        simp only [hstart, hstop, ih]
        split <;> rfl

/-- The place itself or, if it is a comment, the one above it. -/
def landing (p : Place) : Place := if isBareComment p then p.parent.getD p else p

lemma landing_of_kept (h : isBareComment p = false) : landing p = p := by
  simp [landing, h]

lemma landing_of_child (hq : q ∈ p.children) (h : isBareComment q = true) : landing q = p := by
  simp [landing, h, parent_of_mem_children hq]

end Kotlin

namespace Source.PlainComments

variable {src : Source} {p c : Place} {first last : Nat} {kind : String}

/-- What comes behind a comment that the search for a range stops at starts too late for it. -/
lemma late_of_comment (h : src.PlainComments) (hnested : src.WellNested) (hp : src.Has p)
    (hfound : p.children.find? (fun c => !skips first last c.node) = some c)
    (hbare : isBareComment c = true) {d : Place}
    (hd : p.children.find? (fun c => !isBareComment c && !skips first last c.node) = some d) :
    first < d.start := by
  obtain ⟨hskip, before, after, heq, hbefore⟩ := List.find?_eq_some_iff_append.mp hfound
  have hc : c ∈ p.children := List.mem_of_find?_eq_some hfound
  have hnext := List.find?_some hd
  have hstop : first < c.stop := by
    have htext := h.text c (mem_preorder.mpr (hp.child hc rfl)) hbare
    have hstart : c.node.start = c.start := rfl
    have hstop : c.node.stop = c.stop := rfl
    simp only [skips, hstart, hstop, if_neg (Nat.ne_of_lt htext), Bool.not_or,
      Bool.and_eq_true, Bool.not_eq_true', decide_eq_false_iff_not] at hskip
    omega
  have hordered := hnested.ordered p (mem_preorder.mpr hp)
  have hmem := List.mem_of_find?_eq_some hd
  rw [heq, List.pairwise_append, List.pairwise_cons] at hordered
  rw [heq, List.mem_append, List.mem_cons] at hmem
  rcases hmem with hmem | rfl | hmem
  · have hskipped : skips first last d.node = true := by simpa using hbefore d hmem
    simp [hskipped] at hnext
  · simp [hbare] at hnext
  · have := hordered.2.1.1 d hmem
    omega

/-- A search that ends in a comment ends above it without the comment. -/
lemma covering_withoutComments (h : src.PlainComments) (hnested : src.WellNested)
    (hp : src.Has p) (hkept : isBareComment p = false) :
    p.withoutComments.covering first last = (landing (p.covering first last)).withoutComments := by
  induction p using inductionOn with
  | step p ih =>
    have hskips (c : Place) : skips first last c.withoutComments.node = skips first last c.node :=
      congrArg (fun tag => skips first last (.node tag [])) (tag_without isBareComment c)
    have hleft : p.withoutComments.covering first last =
        (((p.children.find? fun c => !isBareComment c && !skips first last c.node).map
          Place.withoutComments).bind fun c => if first < c.start then none
            else some (c.covering first last)).getD p.withoutComments := by
      rw [covering_eq, children_withoutComments hkept, List.find?_map, List.find?_filter]
      simp only [Function.comp_def, hskips, Bool.decide_and, Bool.decide_eq_true]
    rw [hleft, covering_eq]
    cases hfound : p.children.find? fun c => !skips first last c.node with
    | none =>
      have hnone : p.children.find? (fun c => !isBareComment c && !skips first last c.node) =
          none := by
        rw [List.find?_eq_none] at hfound ⊢
        intro c hc
        simp only [Bool.and_eq_true, not_and]
        exact fun _ => hfound c hc
      rw [hnone]
      exact congrArg Place.withoutComments (landing_of_kept hkept).symm
    | some c =>
      have hc : c ∈ p.children := List.mem_of_find?_eq_some hfound
      cases hbare : isBareComment c with
      | false =>
        have hsame : p.children.find? (fun c => !isBareComment c && !skips first last c.node) =
            some c := by
          obtain ⟨hskip, before, after, heq, hbefore⟩ := List.find?_eq_some_iff_append.mp hfound
          rw [List.find?_eq_some_iff_append]
          refine ⟨by simp [hbare, hskip], before, after, heq, fun d hd => ?_⟩
          simp [hbefore d hd]
        rw [hsame, Option.map_some, Option.bind_some, Option.bind_some, start_without]
        split
        · exact congrArg Place.withoutComments (landing_of_kept hkept).symm
        · exact ih c hc (hp.child hc rfl) hbare
      | true =>
        have hself : c.covering first last = c := by
          rw [covering_eq, children, (isBareComment_iff.mp hbare).2.2]
          rfl
        have hlanding : landing ((if first < c.start then none else some c).getD p) = p := by
          split
          · exact landing_of_kept hkept
          · exact landing_of_child hc hbare
        rw [Option.bind_some, hself, hlanding]
        cases hnext : p.children.find? (fun c => !isBareComment c && !skips first last c.node) with
        | none => rfl
        | some d =>
          have hlate := h.late_of_comment hnested hp hfound hbare hnext
          rw [Option.map_some, Option.bind_some, start_without, if_pos hlate]
          rfl

/-- The climb from a comment goes on from the node above it, or there is nothing to find. -/
lemma climbTo?_landing (hnested : src.WellNested) (hp : src.Has p)
    (hrange : isBareComment p = true → p.start ≤ first ∧ last ≤ p.stop)
    (hkind : containsText "comment".toList kind.toList = false) :
    climbTo? kind first last p.selfAndAncestors =
      climbTo? kind first last (landing p).selfAndAncestors := by
  cases hbare : isBareComment p with
  | false => rw [landing_of_kept hbare]
  | true =>
    obtain ⟨hsome, hcomment, -⟩ := isBareComment_iff.mp hbare
    obtain ⟨q, hq⟩ := Option.isSome_iff_exists.mp hsome
    obtain ⟨hhas, hchild⟩ := mem_children_of_parent hp hq
    have hother : p.kind ≠ kind := by
      rintro rfl
      have hcomment : containsText "comment".toList p.kind.toList = true := hcomment
      rw [hkind] at hcomment
      cases hcomment
    rw [landing_of_child hchild hbare, selfAndAncestors, ancestors_of_parent hq, selfAndAncestors,
      climbTo?.eq_def]
    simp only [hother, decide_false, Bool.false_and, Bool.false_eq_true, if_false]
    split
    · rfl
    · rename_i hwide
      rw [climbTo?.eq_def]
      have hnot : (decide (q.kind = kind) && decide (q.start = first) &&
          decide (q.stop = last)) = false := by
        rw [Bool.and_assoc, Bool.and_eq_false_iff]
        exact .inr (by simpa using hwide)
      simp only [hnot, Bool.false_eq_true, if_false]
      cases hancestors : q.ancestors with
      | nil => rfl
      | cons r rest =>
        have hr : r ∈ q.selfAndAncestors := List.mem_cons_of_mem _ (hancestors ▸ List.mem_cons_self)
        obtain ⟨hrhas, hrq⟩ := below_of_mem_selfAndAncestors hhas hr
        have houter := hnested.nested.range_le hrhas hrq
        have hinner := hnested.nested.range_le hhas (below_of_mem_children hchild)
        have hcomment := hrange hbare
        have hwider : ¬((decide (r.start = first) && decide (r.stop = last)) = true) := by
          simp only [Bool.and_eq_true, decide_eq_true_eq] at hwide ⊢
          omega
        exact (if_neg hwider).symm

lemma not_bare_of_landing (hp : src.Has p) : src.Has (landing p) ∧
    isBareComment (landing p) = false := by
  cases hbare : isBareComment p with
  | false =>
    rw [landing_of_kept hbare]
    exact ⟨hp, hbare⟩
  | true =>
    obtain ⟨q, hq⟩ := Option.isSome_iff_exists.mp (isBareComment_iff.mp hbare).1
    obtain ⟨hhas, hchild⟩ := mem_children_of_parent hp hq
    rw [landing_of_child hchild hbare]
    exact ⟨hhas, isBareComment_of_child hchild⟩

/-- An anchor that names no comment leads to the same node. -/
theorem resolve_withoutComments (h : src.PlainComments) (hnested : src.WellNested)
    (hkind : containsText "comment".toList kind.toList = false) :
    src.withoutComments.resolve kind first last =
      (src.resolve kind first last).map Place.withoutComments := by
  obtain ⟨hhas, hrange⟩ := covering_spec first last src.rootPlace
  obtain ⟨hlanding, hkept⟩ := not_bare_of_landing hhas
  have hcovering : src.withoutComments.rootPlace.covering first last = _ :=
    h.covering_withoutComments hnested .refl (isBareComment_root src)
  have hclimb := climbTo?_landing hnested hhas (fun hbare => hrange.resolve_left
    fun heq => by simp [heq, isBareComment_root] at hbare) hkind
  rw [resolve, resolve, hcovering, selfAndAncestors_withoutComments hlanding hkept,
    climbTo?_map (tag_without isBareComment), hclimb]

end Source.PlainComments

end SpecLens
