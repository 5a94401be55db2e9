import SpecLens.Proofs.Kotlin.Spare

/-!
# Member accesses and literals without spare nodes

The tokens of a member access are the same out of its wrappers, and no template entry of a literal
is lost with a comment. So a literal has the same value and an expression the same shape without its
spare nodes.
-/

namespace SpecLens

open Kotlin Place Text

namespace Source.Spares

variable {src : Source} {loose : Place → Bool} {p q c d t : Place}

lemma mem_navigationTokens (hp : src.Has p) (ht : t ∈ navigationTokens p) :
    (t ∈ p.children ∧ t.kind ≠ "navigation_suffix") ∨
      ∃ x, src.Has x ∧ x.kind = "navigation_suffix" ∧ t ∈ x.children := by
  obtain ⟨x, hx, ht⟩ := List.mem_flatMap.mp ht
  split at ht
  · rename_i hkind
    exact .inr ⟨x, hp.child hx rfl, beq_iff_eq.mp hkind, ht⟩
  · rename_i hkind
    rw [List.mem_singleton.mp ht]
    exact .inl ⟨hx, by simpa using hkind⟩

lemma has_of_mem_navigationTokens (hp : src.Has p) (ht : t ∈ navigationTokens p) : src.Has t := by
  rcases mem_navigationTokens hp ht with ⟨ht, -⟩ | ⟨x, hx, -, ht⟩
  · exact hp.child ht rfl
  · exact hx.child ht rfl

/-- Among the tokens of a member access only comments are loose. -/
lemma comment_of_token (h : src.Spares loose) (hp : src.Has p)
    (hkind : p.kind = "navigation_expression") (ht : t ∈ navigationTokens p)
    (hloose : loose t = true) : t.node.isComment = true := by
  rcases mem_navigationTokens hp ht with ⟨ht, hplain⟩ | ⟨x, hx, hsuffix, ht⟩
  · rcases h.cases hp ht hloose with ⟨hcomment, -⟩ | ⟨-, -, hcall, -⟩ | ⟨hsuffix, -⟩
    · exact hcomment
    · simp [isCall, hkind] at hcall
    · exact absurd hsuffix hplain
  · obtain ⟨hcall, hnav, -⟩ := kind_inner_of_suffix (.inr hsuffix)
    exact (h.comment_of_inner hx hcall hnav ht hloose).1

lemma navigationTokens_without (h : src.Spares loose) (hp : src.Keeps loose p)
    (hkind : p.kind = "navigation_expression") :
    navigationTokens (p.without loose) =
      ((navigationTokens p).filter fun t => !loose t).map (Place.without loose) := by
  rw [navigationTokens, children_without hp.2, navigationTokens, List.flatMap_map,
    List.flatMap_assoc, List.filter_flatMap, List.map_flatMap]
  apply List.flatMap_congr
  intro c hc
  cases hloose : loose c with
  | false =>
    rw [surface_of_kept hloose, List.flatMap_singleton, kind_without]
    split
    · rename_i hsuffix
      obtain ⟨hcall, hnav, -⟩ := kind_inner_of_suffix (.inr (beq_iff_eq.mp hsuffix))
      exact h.children_of_inner ⟨hp.1.child hc rfl, hloose⟩ hcall hnav
    · simp [hloose]
  | true =>
    rcases h.cases hp.1 hc hloose with ⟨hcomment, hnone, -⟩ | ⟨-, -, hcall, -⟩ |
      ⟨hsuffix, -, -, hall⟩
    · have hplain : c.kind ≠ "navigation_suffix" := fun hsuffix => by
        simp [(kind_inner_of_suffix (.inr hsuffix)).2.2] at hcomment
      simp [surface_of_childless hnone hloose, hplain, hloose]
    · simp [isCall, hkind] at hcall
    · rw [h.surface_of_suffix (hp.1.child hc rfl) (.inr hsuffix) hloose, hsuffix, if_pos (by rfl),
        List.map_eq_flatMap]
      apply List.flatMap_congr
      intro d hd
      obtain ⟨index, child, hchild, rfl⟩ := mem_children.mp (List.mem_filter.mp hd).1
      have hplain : child.kind ≠ "navigation_suffix" := hall child (List.mem_of_getElem? hchild)
      have hkind : (c.down index child).kind = child.kind := rfl
      rw [kind_without, hkind, if_neg (by simpa using hplain)]

end Source.Spares

@[simp] lemma isIdentifier_without (loose : Place → Bool) (p : Place) :
    isIdentifier (p.without loose) = isIdentifier p := by
  simp [isIdentifier]

@[simp] lemma isStringLiteral_without (loose : Place → Bool) (p : Place) :
    isStringLiteral (p.without loose) = isStringLiteral p := by
  simp [isStringLiteral]

@[simp] lemma identifierName?_without (loose : Place → Bool) (src : Source) (p : Place) :
    identifierName? (src.without loose) (p.without loose) = identifierName? src p := by
  simp [identifierName?]

namespace Source.Spares

variable {src : Source} {loose : Place → Bool} {p q c d t : Place}

lemma filter_navigationTokens (h : src.Spares loose) (hp : src.Has p)
    (hkind : p.kind = "navigation_expression") :
    ((navigationTokens p).filter fun t => !loose t).filter
        (fun t => t.named && !t.node.isComment) =
      (navigationTokens p).filter fun t => t.named && !t.node.isComment := by
  rw [List.filter_filter]
  apply List.filter_congr
  intro t ht
  cases hloose : loose t with
  | false => simp
  | true => simp [h.comment_of_token hp hkind ht hloose]

lemma any_dot_navigationTokens (h : src.Spares loose) (hp : src.Has p)
    (hkind : p.kind = "navigation_expression") :
    ((navigationTokens p).filter fun t => !loose t).any (fun t => !t.named && t.kind == ".") =
      (navigationTokens p).any fun t => !t.named && t.kind == "." := by
  rw [List.any_filter, Bool.eq_iff_iff, List.any_eq_true, List.any_eq_true]
  refine exists_congr fun t => and_congr_right fun ht => ?_
  cases hloose : loose t with
  | false => simp
  | true =>
    have hcomment := h.comment_of_token hp hkind ht hloose
    have hdot : t.kind ≠ "." := by
      rintro hdot
      have hnode : t.node.kind = "." := hdot
      simp only [Node.isComment, hnode] at hcomment
      revert hcomment
      decide
    simp [hdot]

lemma keeps_of_namedToken (h : src.Spares loose) (hp : src.Has p)
    (hkind : p.kind = "navigation_expression")
    (ht : t ∈ (navigationTokens p).filter fun t => t.named && !t.node.isComment) :
    src.Keeps loose t := by
  obtain ⟨hmem, hproper⟩ := List.mem_filter.mp ht
  refine ⟨has_of_mem_navigationTokens hp hmem, ?_⟩
  rw [← Bool.not_eq_true]
  intro hloose
  simp [h.comment_of_token hp hkind hmem hloose] at hproper

theorem navigation?_without (h : src.Spares loose) (hp : src.Keeps loose p) :
    navigation? (p.without loose) =
      (navigation? p).map (Navigation.map (Place.without loose)) := by
  unfold navigation?
  rw [kind_without]
  by_cases hkind : p.kind = "navigation_expression"
  · have hplain : (p.kind != "navigation_expression") = false := by simp [hkind]
    rw [hplain, h.navigationTokens_without hp hkind]
    simp only [Bool.false_eq_true, if_false, List.filter_map, List.any_map, Function.comp_def,
      named_without, isComment_without, kind_without, h.filter_navigationTokens hp.1 hkind,
      h.any_dot_navigationTokens hp.1 hkind, List.head?_map, List.getLast?_map]
    cases hhead : ((navigationTokens p).filter fun t => t.named && !t.node.isComment).head? with
    | none => rfl
    | some receiver =>
      cases hlast : ((navigationTokens p).filter fun t =>
          t.named && !t.node.isComment).getLast? with
      | none => rfl
      | some member =>
        have hreceiver := h.keeps_of_namedToken hp.1 hkind (List.mem_of_mem_head? hhead)
        have hmember := h.keeps_of_namedToken hp.1 hkind (List.mem_of_getLast? hlast)
        have hsame := same_without h.root hreceiver.1 hmember.1 hreceiver.2 hmember.2
        simp only [Option.map_some, hsame, isIdentifier_without]
        split
        · rfl
        · split <;> rfl
  · have hother : (p.kind != "navigation_expression") = true := by simpa using hkind
    rw [hother]
    rfl

lemma keeps_of_navigation? (h : src.Spares loose) (hp : src.Has p) {n : Navigation}
    (hn : navigation? p = some n) : src.Keeps loose n.receiver ∧ src.Keeps loose n.member := by
  have hkind := (navigation?_eq_some hn).1
  unfold navigation? at hn
  split at hn
  · simp at hn
  dsimp only at hn
  split at hn
  · rename_i receiver member hhead hlast
    split at hn
    · simp at hn
    · split at hn
      · cases Option.some.inj hn
        exact ⟨h.keeps_of_namedToken hp hkind (List.mem_of_mem_head? hhead),
          h.keeps_of_namedToken hp hkind (List.mem_of_getLast? hlast)⟩
      · simp at hn
  · simp at hn

/-- Whether a place is a template entry or one stands below it. -/
def holdsEntry (p : Place) : Bool := isEntryKind p.kind || (p.named && hasEntryBelow p.node)

lemma hasEntryBelow_eq (p : Place) : hasEntryBelow p.node = p.children.any holdsEntry := by
  have h (cs : List Node) (index : Nat) : hasEntryAmong cs =
      (cs.mapIdx fun i c => p.down (index + i) c).any holdsEntry := by
    induction cs generalizing index with
    | nil => rfl
    | cons c cs ih =>
      rw [hasEntryAmong, List.mapIdx_cons, List.any_cons, ih (index + 1)]
      simp only [Nat.add_assoc, Nat.add_comm 1]
      rfl
  have h := h p.node.children 0
  simp only [Nat.zero_add] at h
  obtain ⟨⟨tag, children⟩, above⟩ := p
  exact h

lemma any_holdsEntry_surface (h : src.Spares loose) (hp : src.Has p) :
    (p.children.flatMap (surface loose)).any (fun c => holdsEntry (c.without loose)) =
      p.children.any holdsEntry := by
  induction p using inductionOn with
  | step p ih =>
    rw [List.any_flatMap, Bool.eq_iff_iff, List.any_eq_true, List.any_eq_true]
    refine exists_congr fun c => and_congr_right fun hc => ?_
    rw [← Bool.eq_iff_iff]
    have hchild := ih c hc (hp.child hc rfl)
    cases hloose : loose c with
    | false =>
      rw [surface_of_kept hloose, List.any_cons, List.any_nil, Bool.or_false, holdsEntry,
        hasEntryBelow_eq, children_without hloose, List.any_map, kind_without, named_without,
        holdsEntry, hasEntryBelow_eq, ← hchild]
      rfl
    | true =>
      rw [surface_of_loose hloose, hchild, holdsEntry, hasEntryBelow_eq]
      rcases h.cases hp hc hloose with ⟨-, hnone, hentry⟩ | ⟨hkind, hnamed, -⟩ | ⟨hkind, hnamed, -⟩
      · simp [children, hnone, hentry]
      · rw [hkind, hnamed, show isEntryKind "call_suffix" = false by decide]
        simp
      · rw [hkind, hnamed, show isEntryKind "navigation_suffix" = false by decide]
        simp

theorem literal?_without (h : src.Spares loose) (hp : src.Keeps loose p) :
    literal? (src.without loose) (p.without loose) = literal? src p := by
  have hentry : hasEntryBelow (p.without loose).node = hasEntryBelow p.node := by
    rw [hasEntryBelow_eq, children_without hp.2, List.any_map, hasEntryBelow_eq,
      ← h.any_holdsEntry_surface hp.1]
    rfl
  simp [literal?, hentry]

/-- Without its spare nodes a tree holds the same expressions. -/
theorem carries (h : src.Spares loose) :
    src.Carries (src.without loose) (src.Keeps loose) (Place.without loose) where
  kind _ := kind_without loose _
  named _ := named_without loose _
  name _ := identifierName?_without loose src _
  literal := h.literal?_without
  directCall := h.directCall?_without
  within hp := h.within_of_directCall? hp.1
  argument := h.keeps_arguments
  navigation := h.navigation?_without
  ends hp := h.keeps_of_navigation? hp.1

end Source.Spares

end SpecLens
