import SpecLens.Proofs.Style.TokenForm

/-!
# Tests and containers of a style

What declares a test never declares a container in a built-in style, so the climb through the
containers around a node and the walk down agree on which nodes are containers. Going down one step
adds the name of a container to the path, and nothing else.
-/

namespace SpecLens

open Kotlin Place

namespace Style

/-- No call declares both a test and a container, and a style of bare strings has no containers. -/
def Unambiguous (s : Style) : Prop :=
  (∀ k ∈ s.leafCalls, ∀ k' ∈ s.containerCalls, k.name ≠ k'.name) ∧
  (∀ k ∈ s.leafChains, ∀ k' ∈ s.containerChains, k.name ≠ k'.name) ∧
  (s.bareStrings = true → s.containerCalls = [] ∧ s.containerChains = [])

lemma builtin_unambiguous : ∀ s ∈ Style.builtin, s.Unambiguous := by
  unfold Unambiguous
  decide

variable {s : Style} {src : Source} {p c : Place} {t : Test} {d : Declared}

/-- The name by which a node calls a keyword. -/
def callKeyword? (src : Source) (p : Place) : Option String :=
  match shape p with
  | .call c => identifierName? src c.callee
  | _ => none

/-- The name by which a node configures the call of a keyword. -/
def chainKeyword? (src : Source) (p : Place) : Option String :=
  match shape p with
  | .dot e => callName? src e.receiver
  | _ => none

lemma chainKeyword?_of_callKeyword? {name : String} (h : callKeyword? src p = some name) :
    chainKeyword? src p = none := by
  unfold callKeyword? at h
  unfold chainKeyword?
  split at h
  · rename_i hshape
    rw [hshape]
  · simp at h

lemma declaredByCall?_eq_some {keywords : List Keyword} {kind : TestKind}
    (h : declaredByCall? src keywords kind p = some d) :
    d.kind = kind ∧ ∃ k ∈ keywords, callKeyword? src p = some k.name := by
  obtain ⟨c, k, l, hshape, hname, hk, -, rfl⟩ := exists_of_declaredByCall? h
  exact ⟨rfl, k, hk, by simp only [callKeyword?, hshape, hname]⟩

lemma declaredByChain?_eq_some {keywords : List Keyword} {kind : TestKind}
    (h : declaredByChain? src keywords kind p = some d) :
    d.kind = kind ∧ ∃ k ∈ keywords, chainKeyword? src p = some k.name := by
  obtain ⟨e, k, l, hshape, hname, hk, -, rfl⟩ := exists_of_declaredByChain? h
  exact ⟨rfl, k, hk, by simp only [chainKeyword?, hshape, hname]⟩

lemma leaf?_eq_some (h : s.leaf? src p = some d) : d.kind = .leaf ∧ (s.bareStrings = true ∨
    (∃ k ∈ s.leafCalls, callKeyword? src p = some k.name) ∨
    ∃ k ∈ s.leafChains, chainKeyword? src p = some k.name) := by
  rcases leaf?_cases h with ⟨hbare, hstring⟩ | hcall | hchain
  · obtain ⟨l, -, rfl⟩ := Option.map_eq_some_iff.mp hstring
    exact ⟨rfl, .inl hbare⟩
  · exact (declaredByCall?_eq_some hcall).imp_right fun hk => .inr (.inl hk)
  · exact (declaredByChain?_eq_some hchain).imp_right fun hk => .inr (.inr hk)

lemma container?_eq_some (h : s.container? src p = some d) : d.kind = .container ∧
    ((∃ k ∈ s.containerCalls, callKeyword? src p = some k.name) ∨
    ∃ k ∈ s.containerChains, chainKeyword? src p = some k.name) := by
  rcases container?_cases h with hcall | hchain
  · exact (declaredByCall?_eq_some hcall).imp_right .inl
  · exact (declaredByChain?_eq_some hchain).imp_right .inr

lemma Unambiguous.container?_eq_none (hs : s.Unambiguous) (h : s.leaf? src p = some d) :
    s.container? src p = none := by
  rw [Option.eq_none_iff_forall_ne_some]
  intro e he
  obtain ⟨hcalls, hchains, hflat⟩ := hs
  rcases (leaf?_eq_some h).2 with hbare | ⟨k, hk, hname⟩ | ⟨k, hk, hname⟩
  · obtain ⟨hnone, hnone'⟩ := hflat hbare
    rcases (container?_eq_some he).2 with ⟨k', hk', -⟩ | ⟨k', hk', -⟩
    · simp [hnone] at hk'
    · simp [hnone'] at hk'
  · rcases (container?_eq_some he).2 with ⟨k', hk', hname'⟩ | ⟨k', -, hname'⟩
    · exact hcalls k hk k' hk' (Option.some.inj (hname.symm.trans hname'))
    · simp [chainKeyword?_of_callKeyword? hname] at hname'
  · rcases (container?_eq_some he).2 with ⟨k', -, hname'⟩ | ⟨k', hk', hname'⟩
    · simp [chainKeyword?_of_callKeyword? hname'] at hname
    · exact hchains k hk k' hk' (Option.some.inj (hname.symm.trans hname'))

lemma container?_eq_none_of_test? (h : s.test? src p = none) : s.container? src p = none :=
  (Option.or_eq_none_iff.mp (Option.map_eq_none_iff.mp h)).2

/-- The climb takes a recognized node for a container just if the walk does. -/
lemma Unambiguous.container?_of_test? (hs : s.Unambiguous) (h : s.test? src p = some t) :
    (t.isContainer = true ∧ ∃ d, s.container? src p = some d ∧ t = s.build src p d) ∨
      (t.isContainer = false ∧ s.container? src p = none) := by
  obtain ⟨d, hd, rfl⟩ := Option.map_eq_some_iff.mp h
  have hkind : (s.build src p d).kind = d.kind := rfl
  rcases declared?_cases hd with hleaf | hcontainer
  · right
    exact ⟨by simp [Test.isContainer, hkind, (leaf?_eq_some hleaf).1], hs.container?_eq_none hleaf⟩
  · left
    exact ⟨by simp [Test.isContainer, hkind, (container?_eq_some hcontainer).1], d, hcontainer, rfl⟩

lemma parents_of_mem_children (hc : c ∈ p.children) :
    s.parents src c = s.parents src p ++ (s.container? src p).toList := by
  rw [parents, parents, ancestors_of_parent (parent_of_mem_children hc), selfAndAncestors,
    List.filterMap_cons]
  cases s.container? src p with
  | none => simp
  | some d => simp

/-- The entries of the containers around a place, outermost first. -/
def pathAround (s : Style) (src : Source) (p : Place) : List PathEntry :=
  (s.parents src p).map (.ofName ·.name)

/-- Whether a container around a place is disabled. -/
def disabledAround (s : Style) (src : Source) (p : Place) : Bool :=
  (s.parents src p).any (·.disabled)

lemma around_of_container (hd : s.container? src p = some d) (hc : c ∈ p.children) :
    s.pathAround src c = (s.build src p d).path ∧
      s.disabledAround src c = (s.build src p d).disabled := by
  simp only [pathAround, disabledAround, parents_of_mem_children hc, hd, Option.toList_some, build,
    List.map_append, List.any_append]
  simp [Bool.or_comm]

lemma around_of_plain (hp : s.container? src p = none) (hc : c ∈ p.children) :
    s.pathAround src c = s.pathAround src p ∧ s.disabledAround src c = s.disabledAround src p := by
  simp [pathAround, disabledAround, parents_of_mem_children hc, hp]

lemma test?_around (h : s.test? src p = some t) :
    t.path = s.pathAround src p ++ [.ofName t.name] ∧ t.isRoot = (s.pathAround src p).isEmpty ∧
      (s.disabledAround src p = true → t.disabled = true) := by
  obtain ⟨d, -, rfl⟩ := Option.map_eq_some_iff.mp h
  refine ⟨rfl, ?_, fun hoff => ?_⟩
  · cases hparents : s.parents src p with
    | nil => simp [build, pathAround, hparents]
    | cons e rest => simp [build, pathAround, hparents]
  · rw [disabledAround] at hoff
    simp [build, hoff]

end Style

end SpecLens
