import SpecLens.Proofs.Kotlin.CallGrammar
import SpecLens.Proofs.Style.Container

/-!
# What the styles of keywords recognize

A style of keywords recognizes a call of one of them with a string literal and a lambda, and such a
call of a keyword for tests with a configuration before the lambda. The search for keywords, the
shape of the expression and the literal are read one after the other; together they accept just
this, and nothing near to it.
-/

namespace SpecLens

open Kotlin Place

variable {src : Source} {p : Place} {k : Keyword} {l : Literal} {keywords : List Keyword}
  {kind : TestKind} {d : Declared} {member : String}

lemma Keyword.find?_of_mem (hnames : (keywords.map (·.name)).Nodup) (hk : k ∈ keywords) :
    find? keywords k.name = some k := by
  have hsome : (find? keywords k.name).isSome = true :=
    List.find?_isSome.mpr ⟨k, hk, by simp⟩
  obtain ⟨k', hfound⟩ := Option.isSome_iff_exists.mp hsome
  obtain ⟨hk', hname⟩ := Style.keyword_of_find? hfound
  rw [hfound, List.inj_on_of_nodup_map hnames hk' hk hname]

lemma shape_of_identifier {c : Call} {name : String} (hcall : call? p = some c)
    (hname : identifierName? src c.callee = some name) : shape p = .call c := by
  simp [shape, isCall_of_call? hcall, hcall, isIdentifier_of_identifierName? hname]

lemma shape_of_access {c : Call} {n : Navigation} (hcall : call? p = some c)
    (haccess : navigation? c.callee = some n) :
    shape p = .dot ⟨p, n.receiver, n.member, some c⟩ := by
  have hkind := (navigation?_eq_some haccess).1
  have hidentifier : isIdentifier c.callee = false := by
    rw [isIdentifier, hkind]
    decide
  have hliteral : isStringLiteral c.callee = false := by
    rw [isStringLiteral, hkind]
    cases c.callee.named <;> decide
  simp [shape, dotExpression?, isCall_of_call? hcall, hcall, hidentifier, hliteral, haccess]

lemma shape_of_configures {name : String} (h : Configures src member p name l) :
    ∃ e, shape p = .dot e ∧ callName? src e.receiver = some name := by
  obtain ⟨happlies, -, haccess, -, hinner, -, hname, -⟩ := h
  have hnavigation := navigation?_eq_some_iff.mpr haccess
  have hcall := happlies.call? (not_isCall_of_navigation? hnavigation)
  refine ⟨_, shape_of_access hcall hnavigation, ?_⟩
  rw [callName?, hinner.call? (not_isCall_of_identifierName? hname), Option.bind_some, hname]

lemma declaredByCall?_of_invokes (hnames : (keywords.map (·.name)).Nodup) (hk : k ∈ keywords)
    (h : Invokes src p k.name l) :
    declaredByCall? src keywords kind p = some (k.declare kind l) := by
  have hliteral := literalOfCall?_eq_some_iff.mpr h
  obtain ⟨happlies, -, hname, -⟩ := h
  have hcall := happlies.call? (not_isCall_of_identifierName? hname)
  simp [declaredByCall?, shape_of_identifier hcall hname, hname, Keyword.find?_of_mem hnames hk, hliteral]

lemma exists_invokes (h : declaredByCall? src keywords kind p = some d) :
    ∃ k ∈ keywords, ∃ l, Invokes src p k.name l ∧ d = k.declare kind l := by
  obtain ⟨c, k, l, -, -, hk, hl, heq⟩ := Style.exists_of_declaredByCall? h
  exact ⟨k, hk, l, literalOfCall?_eq_some_iff.mp hl, heq⟩

lemma declaredByChain?_of_configures (hnames : (keywords.map (·.name)).Nodup) (hk : k ∈ keywords)
    (h : Configures src configMember p k.name l) :
    declaredByChain? src keywords kind p = some (k.declare kind l) := by
  obtain ⟨e, hshape, hname⟩ := shape_of_configures h
  simp [declaredByChain?, hshape, hname, Keyword.find?_of_mem hnames hk,
    literalOfChain?_eq_some_iff.mpr h]

lemma exists_configures (h : declaredByChain? src keywords kind p = some d) :
    ∃ k ∈ keywords, ∃ l, Configures src configMember p k.name l ∧ d = k.declare kind l := by
  obtain ⟨e, k, l, -, -, hk, hl, heq⟩ := Style.exists_of_declaredByChain? h
  exact ⟨k, hk, l, literalOfChain?_eq_some_iff.mp hl, heq⟩

lemma declaredByCall?_of_configures {name : String} (h : Configures src member p name l) :
    declaredByCall? src keywords kind p = none := by
  obtain ⟨e, hshape, -⟩ := shape_of_configures h
  simp [declaredByCall?, hshape]

namespace Style

variable {s : Style}

/-- The styles whose tests are declared by keywords. -/
def keyworded : List Style := [feature, funStyle, describe, should, behavior]

/-- A style declares something at a node by one of its keywords and a literal. Keywords for tests
can be configured, those for containers only in a `feature` spec. -/
inductive Declares (s : Style) (src : Source) (p : Place) (k : Keyword) (l : Literal) :
    TestKind → Prop
  | test : k ∈ s.leafCalls → Invokes src p k.name l → Declares s src p k l .leaf
  | container : k ∈ s.containerCalls → Invokes src p k.name l → Declares s src p k l .container
  | configuredTest : k ∈ s.leafCalls → Configures src configMember p k.name l →
    Declares s src p k l .leaf
  | configuredContainer : s = feature → k ∈ s.containerCalls →
    Configures src configMember p k.name l → Declares s src p k l .container

/-- How the tables of a style of keywords are filled. -/
structure Tabled (s : Style) : Prop where
  noStrings : s.bareStrings = false
  leafChains : s.leafChains = s.leafCalls
  containerChains : s.containerChains = if s = feature then s.containerCalls else []
  leafNames : (s.leafCalls.map (·.name)).Nodup
  containerNames : (s.containerCalls.map (·.name)).Nodup

lemma tabled_of_mem_keyworded (hs : s ∈ keyworded) : s.Tabled := by
  simp only [keyworded, List.mem_cons, List.not_mem_nil, or_false] at hs
  rcases hs with rfl | rfl | rfl | rfl | rfl <;> constructor <;> decide

lemma mem_builtin_of_mem_keyworded (hs : s ∈ keyworded) : s ∈ builtin := by
  have hsub : keyworded ⊆ builtin := by simp [keyworded, builtin]
  exact hsub hs

lemma Tabled.mem_containerChains (hs : s.Tabled) :
    k ∈ s.containerChains ↔ s = feature ∧ k ∈ s.containerCalls := by
  rw [hs.containerChains]
  split
  · rename_i heq
    exact ⟨fun hk => ⟨heq, hk⟩, And.right⟩
  · rename_i hne
    simp [hne]

lemma Tabled.leaf?_eq (hs : s.Tabled) : s.leaf? src p =
    (declaredByCall? src s.leafCalls .leaf p).or (declaredByChain? src s.leafCalls .leaf p) := by
  simp [leaf?, hs.noStrings, hs.leafChains]

lemma exists_declares (hs : s.Tabled) (h : s.declared? src p = some d) :
    ∃ k l kind, s.Declares src p k l kind ∧ d = k.declare kind l := by
  rcases declared?_cases h with hleaf | hcontainer
  · rcases leaf?_cases hleaf with ⟨hbare, -⟩ | hcall | hchain
    · rw [hs.noStrings] at hbare
      cases hbare
    · obtain ⟨k, hk, l, hinvokes, heq⟩ := exists_invokes hcall
      exact ⟨k, l, .leaf, .test hk hinvokes, heq⟩
    · obtain ⟨k, hk, l, hconfigures, heq⟩ := exists_configures hchain
      exact ⟨k, l, .leaf, .configuredTest (hs.leafChains ▸ hk) hconfigures, heq⟩
  · rcases container?_cases hcontainer with hcall | hchain
    · obtain ⟨k, hk, l, hinvokes, heq⟩ := exists_invokes hcall
      exact ⟨k, l, .container, .container hk hinvokes, heq⟩
    · obtain ⟨k, hk, l, hconfigures, heq⟩ := exists_configures hchain
      obtain ⟨hfeature, hk⟩ := hs.mem_containerChains.mp hk
      exact ⟨k, l, .container, .configuredContainer hfeature hk hconfigures, heq⟩

lemma Unambiguous.declared?_of_container? (hs : s.Unambiguous) (h : s.container? src p = some d) :
    s.declared? src p = some d := by
  have hleaf : s.leaf? src p = none := by
    rw [Option.eq_none_iff_forall_ne_some]
    intro e he
    rw [hs.container?_eq_none he] at h
    cases h
  rw [declared?, hleaf, Option.none_or, h]

/-- The tables of a style leave no choice: whatever the rules derive at a node is what is read
there. -/
lemma Declares.declared? (h : s.Declares src p k l kind) (hs : s.Tabled) (hsure : s.Unambiguous) :
    s.declared? src p = some (k.declare kind l) := by
  cases h with
  | test hk h =>
    rw [Style.declared?, hs.leaf?_eq, declaredByCall?_of_invokes hs.leafNames hk h]
    rfl
  | configuredTest hk h =>
    rw [Style.declared?, hs.leaf?_eq, declaredByCall?_of_configures h, Option.none_or,
      declaredByChain?_of_configures hs.leafNames hk h]
    rfl
  | container hk h =>
    apply hsure.declared?_of_container?
    rw [container?, declaredByCall?_of_invokes hs.containerNames hk h]
    rfl
  | configuredContainer hfeature hk h =>
    apply hsure.declared?_of_container?
    rw [container?, declaredByCall?_of_configures h, Option.none_or, hs.containerChains,
      if_pos hfeature, declaredByChain?_of_configures hs.containerNames hk h]

/-- A style of keywords recognizes a node just if one of its keywords and a literal declare
something there. The name and the kind, what is shown before the name and whether the test itself is
skipped are those of the keyword and the literal. -/
theorem recognizes_iff_declares (hs : s ∈ keyworded) (src : Source) (p : Place) :
    ((s.test? src p).isSome = true ↔ ∃ k l kind, s.Declares src p k l kind) ∧
      ∀ k l kind, s.Declares src p k l kind → ∃ t, s.test? src p = some t ∧
        t.name = ⟨k.lead, l.text, l.interpolated⟩ ∧ t.kind = kind ∧
        t.disabled = (k.disabled || (s.parents src p).any (·.disabled)) ∧
        s.declared? src p = some ⟨t.name, t.kind, k.disabled⟩ := by
  have htabled := tabled_of_mem_keyworded hs
  have hread {k : Keyword} {l : Literal} {kind : TestKind} (h : s.Declares src p k l kind) :=
    h.declared? htabled (builtin_unambiguous s (mem_builtin_of_mem_keyworded hs))
  refine ⟨?_, fun k l kind h =>
    ⟨_, congrArg (Option.map _) (hread h), rfl, rfl, rfl, hread h⟩⟩
  rw [test?, Option.isSome_map, Option.isSome_iff_exists]
  constructor
  · rintro ⟨d, hd⟩
    obtain ⟨k, l, kind, h, -⟩ := exists_declares htabled hd
    exact ⟨k, l, kind, h⟩
  · rintro ⟨k, l, kind, h⟩
    exact ⟨_, hread h⟩

end Style

/-- The configured call declares a test, and what it configures declares nothing by itself. -/
theorem configuredTest_declares : Style.funStyle ∈ Style.keyworded ∧
    ∃ p, ∃ q ∈ p.namedChildren, isCall q = true ∧
      (∃ k l, Style.funStyle.Declares configuredTest p k l .leaf ∧ l.text = "a") ∧
      ∀ k l kind, ¬Style.funStyle.Declares configuredTest q k l kind := by
  have hmem : Style.funStyle ∈ Style.keyworded := by simp [Style.keyworded]
  have hfound : ∃ p ∈ configuredTest.rootPlace.children, ∃ q ∈ p.namedChildren,
      isCall q = true ∧
      Style.funStyle.declared? configuredTest p = some ⟨⟨none, "a", false⟩, .leaf, false⟩ ∧
      (Style.funStyle.declared? configuredTest q).isSome = false := by
    decide +kernel
  obtain ⟨p, -, q, hq, hcall, hdeclared, hnone⟩ := hfound
  obtain ⟨hsome, hread⟩ := Style.recognizes_iff_declares hmem configuredTest p
  obtain ⟨k, l, kind, hdeclares⟩ := hsome.mp (by rw [Style.test?, hdeclared]; rfl)
  obtain ⟨t, -, hname, rfl, -, hown⟩ := hread k l kind hdeclares
  rw [hown, hname] at hdeclared
  simp only [Option.some.injEq, Declared.mk.injEq, TestName.mk.injEq] at hdeclared
  obtain ⟨⟨-, htext, -⟩, hkind, -⟩ := hdeclared
  rw [hkind] at hdeclares
  refine ⟨hmem, p, q, hq, hcall, ⟨k, l, hdeclares, htext⟩, ?_⟩
  intro k l kind hdeclares
  have hsome := (Style.recognizes_iff_declares hmem configuredTest q).1.mpr ⟨k, l, kind, hdeclares⟩
  rw [Style.test?, Option.isSome_map, hnone] at hsome
  cases hsome

end SpecLens
