import SpecLens.Proofs.Kotlin.Token
import SpecLens.Proofs.Style.Carry
import SpecLens.Proofs.Tree.Dissolve
import SpecLens.Proofs.Tree.Nesting

/-!
# Nodes that expressions can do without

A comment that holds nothing, and a wrapper around the parts of a call or of a member access, are
spare: what an expression consists of is the same without them. Each function that reads the shape
of an expression, and each that climbs from a token to one, is followed here into the tree without
some of its spare nodes.
-/

namespace SpecLens

open Kotlin Place Text

namespace Kotlin

/-- A comment below the root that holds nothing. -/
def isBareComment (p : Place) : Bool :=
  p.parent.isSome && p.node.isComment && p.node.children.isEmpty

/-- Whether a kind is one of template entries. -/
def isEntryKind (kind : String) : Bool := containsText "interpolat".toList kind.toList

/-- A wrapper around parts of a call that follow what is called. Wrappers do not nest. -/
def isCallWrapper (p : Place) : Bool :=
  p.named && p.kind == "call_suffix" && p.node.children.all (·.kind != "call_suffix") &&
    p.parent.any fun q => isCall q && !isCalleeOf p q

/-- A wrapper around parts of a member access. -/
def isMemberWrapper (p : Place) : Bool :=
  p.named && p.kind == "navigation_suffix" &&
    p.node.children.all (·.kind != "navigation_suffix") &&
    p.parent.any (·.kind == "navigation_expression")

def isWrapper (p : Place) : Bool := isCallWrapper p || isMemberWrapper p

/-- A node that expressions can do without. -/
def isSpare (p : Place) : Bool := (isBareComment p && !isEntryKind p.kind) || isWrapper p

end Kotlin

/-- Only spare nodes are loose. -/
def Source.Spares (src : Source) (loose : Place → Bool) : Prop :=
  ∀ p ∈ src.rootPlace.preorder, loose p = true → isSpare p = true

/-- A place of the tree that is not loose. -/
def Source.Keeps (src : Source) (loose : Place → Bool) (p : Place) : Prop :=
  src.Has p ∧ loose p = false

namespace Source.Spares

variable {src : Source} {loose : Place → Bool} {p q c d : Place}

/-- What a loose node below `q` is. -/
lemma cases (h : src.Spares loose) (hq : src.Has q) (hc : c ∈ q.children)
    (hloose : loose c = true) :
    c.node.isComment = true ∧ c.node.children = [] ∧ isEntryKind c.kind = false ∨
      c.kind = "call_suffix" ∧ c.named = true ∧ isCall q = true ∧ isCalleeOf c q = false ∧
        (∀ n ∈ c.node.children, n.kind ≠ "call_suffix") ∨
      c.kind = "navigation_suffix" ∧ c.named = true ∧ q.kind = "navigation_expression" ∧
        ∀ n ∈ c.node.children, n.kind ≠ "navigation_suffix" := by
  have hspare := h c (mem_preorder.mpr (hq.child hc rfl)) hloose
  simp only [isSpare, isBareComment, isWrapper, isCallWrapper, isMemberWrapper,
    parent_of_mem_children hc, Bool.or_eq_true, Bool.and_eq_true, Bool.not_eq_true', beq_iff_eq,
    bne_iff_ne, List.all_eq_true, List.isEmpty_iff, Option.any_some] at hspare
  rcases hspare with ⟨⟨⟨-, hcomment⟩, hnone⟩, hkind⟩ | ⟨⟨⟨hnamed, hkind⟩, hall⟩, hcall, hcallee⟩ |
    ⟨⟨⟨hnamed, hkind⟩, hall⟩, hnav⟩
  · exact .inl ⟨hcomment, hnone, hkind⟩
  · exact .inr (.inl ⟨hkind, hnamed, hcall, hcallee, hall⟩)
  · exact .inr (.inr ⟨hkind, hnamed, hnav, hall⟩)

lemma root (h : src.Spares loose) : loose src.rootPlace = false := by
  rw [← Bool.not_eq_true]
  intro hloose
  have hspare := h _ (mem_preorder.mpr .refl) hloose
  simp [isSpare, isBareComment, isWrapper, isCallWrapper, isMemberWrapper, rootPlace, Place.root,
    parent] at hspare

/-- Where neither a call nor a member access stands above it, a loose node is a comment. -/
lemma comment_of_inner (h : src.Spares loose) (hq : src.Has q) (hcall : isCall q = false)
    (hnav : q.kind ≠ "navigation_expression") (hc : c ∈ q.children) (hloose : loose c = true) :
    c.node.isComment = true ∧ c.node.children = [] ∧ isEntryKind c.kind = false := by
  rcases h.cases hq hc hloose with hcomment | ⟨-, -, hcall', -⟩ | ⟨-, -, hnav', -⟩
  · exact hcomment
  · simp [hcall] at hcall'
  · exact absurd hnav' hnav

lemma surface_of_childless (hc : c.node.children = []) (hloose : loose c = true) :
    c.surface loose = [] := by
  rw [surface_of_loose hloose, children, hc]
  rfl

/-- The surface of nodes among which only comments are loose. -/
lemma flatMap_surface {places : List Place}
    (h : ∀ c ∈ places, loose c = true → c.node.children = []) :
    places.flatMap (surface loose) = places.filter fun c => !loose c := by
  rw [← List.flatMap_singleton' (places.filter _), flatMap_filter]
  apply List.flatMap_congr
  intro c hc
  cases hloose : loose c with
  | true => simp [surface_of_childless (h c hc hloose) hloose]
  | false => simp [surface_of_kept hloose]

lemma flatMap_surface_children (h : src.Spares loose) (hq : src.Has q) (hcall : isCall q = false)
    (hnav : q.kind ≠ "navigation_expression") :
    q.children.flatMap (surface loose) = q.children.filter fun c => !loose c :=
  flatMap_surface fun _ hc hloose => (h.comment_of_inner hq hcall hnav hc hloose).2.1

lemma children_of_inner (h : src.Spares loose) (hp : src.Keeps loose p) (hcall : isCall p = false)
    (hnav : p.kind ≠ "navigation_expression") :
    (p.without loose).children = (p.children.filter fun c => !loose c).map (Place.without loose) := by
  rw [children_without hp.2, h.flatMap_surface_children hp.1 hcall hnav]

/-- What stands for a child in the list of named children. -/
def spread (loose : Place → Bool) (c : Place) : List Place :=
  if loose c then c.namedChildren else [c]

lemma kind_inner_of_suffix (hkind : c.kind = "call_suffix" ∨ c.kind = "navigation_suffix") :
    isCall c = false ∧ c.kind ≠ "navigation_expression" ∧ c.node.isComment = false := by
  have hnode : c.node.kind = c.kind := rfl
  rcases hkind with hkind | hkind <;> simp only [isCall, Node.isComment, hnode, hkind] <;> decide

/-- Below a suffix nothing is loose but comments. -/
lemma surface_of_suffix (h : src.Spares loose) (hc : src.Has c)
    (hkind : c.kind = "call_suffix" ∨ c.kind = "navigation_suffix") (hloose : loose c = true) :
    c.surface loose = c.children.filter fun d => !loose d := by
  obtain ⟨hcall, hnav, -⟩ := kind_inner_of_suffix hkind
  rw [surface_of_loose hloose, h.flatMap_surface_children hc hcall hnav]

lemma filter_surface (h : src.Spares loose) (hq : src.Has q) (hc : c ∈ q.children) :
    (c.surface loose).filter (fun d => d.named && !d.node.isComment) =
      if c.named && !c.node.isComment then spread loose c else [] := by
  cases hloose : loose c with
  | false => rw [surface_of_kept hloose, spread, hloose]; simp [List.filter_cons]
  | true =>
    have hwrapper (hnamed : c.named = true)
        (hkind : c.kind = "call_suffix" ∨ c.kind = "navigation_suffix") :
        (c.surface loose).filter (fun d => d.named && !d.node.isComment) =
          if c.named && !c.node.isComment then spread loose c else [] := by
      obtain ⟨hcall, hnav, hcomment⟩ := kind_inner_of_suffix hkind
      have hc := hq.child hc rfl
      rw [h.surface_of_suffix hc hkind hloose, List.filter_filter, spread, hloose, hnamed, hcomment]
      apply List.filter_congr
      intro d hd
      cases hd' : loose d with
      | false => simp
      | true => simp [(h.comment_of_inner hc hcall hnav hd hd').1]
    rcases h.cases hq hc hloose with ⟨hcomment, hnone, -⟩ | ⟨hkind, hnamed, -⟩ | ⟨hkind, hnamed, -⟩
    · simp [surface_of_childless hnone hloose, hcomment]
    · exact hwrapper hnamed (.inl hkind)
    · exact hwrapper hnamed (.inr hkind)

lemma namedChildren_without (h : src.Spares loose) (hp : src.Keeps loose p) :
    (p.without loose).namedChildren =
      (p.namedChildren.flatMap (spread loose)).map (Place.without loose) := by
  have hproper (c : Place) : ((c.without loose).named && !(c.without loose).node.isComment) =
      (c.named && !c.node.isComment) := by
    simp
  rw [namedChildren, children_without hp.2, List.filter_map, List.filter_flatMap, namedChildren,
    flatMap_filter]
  simp only [Function.comp_def, hproper]
  exact congrArg _ (List.flatMap_congr fun c hc => h.filter_surface hp.1 hc)

lemma keeps_of_inner (h : src.Spares loose) (hq : src.Has q) (hcall : isCall q = false)
    (hnav : q.kind ≠ "navigation_expression") (hc : c ∈ q.namedChildren) : src.Keeps loose c := by
  obtain ⟨hchild, hproper⟩ := List.mem_filter.mp hc
  refine ⟨hq.child hchild rfl, ?_⟩
  rw [← Bool.not_eq_true]
  intro hloose
  simp [(h.comment_of_inner hq hcall hnav hchild hloose).1] at hproper

lemma namedChildren_of_inner (h : src.Spares loose) (hp : src.Keeps loose p)
    (hcall : isCall p = false) (hnav : p.kind ≠ "navigation_expression") :
    (p.without loose).namedChildren = p.namedChildren.map (Place.without loose) := by
  have hspread : p.namedChildren.flatMap (spread loose) = p.namedChildren.flatMap fun c => [c] := by
    apply List.flatMap_congr
    intro c hc
    rw [spread, (h.keeps_of_inner hp.1 hcall hnav hc).2]
    rfl
  rw [h.namedChildren_without hp, hspread, List.flatMap_singleton']

end Source.Spares

@[simp] lemma isCall_without (loose : Place → Bool) (p : Place) :
    isCall (p.without loose) = isCall p := by
  simp [isCall]

namespace Source.Spares

variable {src : Source} {loose : Place → Bool} {p q c d : Place}

lemma keeps_callee (h : src.Spares loose) (hp : src.Has p) (hcall : isCall p = true)
    (hc : c ∈ p.namedChildren.head?) : src.Keeps loose c := by
  obtain ⟨hchild, hproper⟩ := List.mem_filter.mp (List.mem_of_mem_head? hc)
  refine ⟨hp.child hchild rfl, ?_⟩
  rw [← Bool.not_eq_true]
  intro hloose
  rcases h.cases hp hchild hloose with ⟨hcomment, -⟩ | ⟨-, -, -, hcallee, -⟩ | ⟨-, -, hnav, -⟩
  · simp [hcomment] at hproper
  · simp [isCalleeOf_of_head? hcall hc] at hcallee
  · simp [isCall, hnav] at hcall

/-- What is loose among the named children of a call wraps some of its parts. -/
lemma wrapper_of_call (h : src.Spares loose) (hp : src.Has p) (hcall : isCall p = true)
    (hc : c ∈ p.namedChildren) (hloose : loose c = true) :
    c.kind = "call_suffix" ∧ ∀ d ∈ c.namedChildren, d.kind ≠ "call_suffix" := by
  obtain ⟨hchild, hproper⟩ := List.mem_filter.mp hc
  rcases h.cases hp hchild hloose with ⟨hcomment, -⟩ | ⟨hkind, -, -, -, hall⟩ | ⟨-, -, hnav, -⟩
  · simp [hcomment] at hproper
  · refine ⟨hkind, fun d hd => ?_⟩
    obtain ⟨_, child, hchild, rfl⟩ := mem_children.mp (mem_children_of_mem_namedChildren hd)
    exact hall child (List.mem_of_getElem? hchild)
  · simp [isCall, hnav] at hcall

/-- The parts of a call are all kept. -/
lemma keeps_of_mem_callTail (h : src.Spares loose) (hp : src.Has p) (hcall : isCall p = true)
    {rest : List Place} (hrest : rest ⊆ p.namedChildren) (hd : d ∈ callTail rest) :
    src.Keeps loose d := by
  obtain ⟨c, hc, hd⟩ := List.mem_flatMap.mp hd
  have hchild := hp.child (mem_children_of_mem_namedChildren (hrest hc)) rfl
  split at hd
  · rename_i hkind
    obtain ⟨hinner, hnav, -⟩ := kind_inner_of_suffix (.inl (beq_iff_eq.mp hkind))
    exact h.keeps_of_inner hchild hinner hnav hd
  · rename_i hkind
    rw [List.mem_singleton.mp hd]
    refine ⟨hchild, ?_⟩
    rw [← Bool.not_eq_true]
    intro hloose
    exact hkind (beq_iff_eq.mpr (h.wrapper_of_call hp hcall (hrest hc) hloose).1)

/-- Out of their wrappers, the parts of a call are the same. -/
lemma callTail_spread (h : src.Spares loose) (hp : src.Has p) (hcall : isCall p = true)
    {rest : List Place} (hrest : rest ⊆ p.namedChildren) :
    callTail ((rest.flatMap (spread loose)).map (Place.without loose)) =
      (callTail rest).map (Place.without loose) := by
  simp only [callTail, List.flatMap_map, List.flatMap_assoc, List.map_flatMap]
  apply List.flatMap_congr
  intro c hc
  cases hloose : loose c with
  | true =>
    obtain ⟨hkind, hparts⟩ := h.wrapper_of_call hp hcall (hrest hc) hloose
    have hplain (d : Place) (hd : d ∈ c.namedChildren) : (if (d.without loose).kind == "call_suffix"
        then (d.without loose).namedChildren else [d.without loose]) = [d.without loose] := by
      simp [hparts d hd]
    rw [spread, hloose, if_pos rfl, List.flatMap_congr hplain, hkind, if_pos (by rfl),
      List.map_eq_flatMap]
  | false =>
    have hchild := hp.child (mem_children_of_mem_namedChildren (hrest hc)) rfl
    rw [spread, hloose, if_neg Bool.false_ne_true, List.flatMap_singleton, kind_without]
    split
    · rename_i hkind
      obtain ⟨hinner, hnav, -⟩ := kind_inner_of_suffix (.inl (beq_iff_eq.mp hkind))
      exact h.namedChildren_of_inner ⟨hchild, hloose⟩ hinner hnav
    · rfl

lemma lastArguments_map (loose : Place → Bool) (parts : List Place) :
    lastArguments (parts.map (Place.without loose)) =
      (lastArguments parts).map (Place.without loose) := by
  simp [lastArguments, List.filter_map, Function.comp_def]

lemma kind_of_lastArguments {parts : List Place} (hd : lastArguments parts = some d) :
    d ∈ parts ∧ d.kind = "value_arguments" := by
  obtain ⟨hmem, hkind⟩ := List.mem_filter.mp (List.mem_of_getLast? hd)
  exact ⟨hmem, beq_iff_eq.mp hkind⟩

lemma inner_of_kind {kind : String} (hp : p.kind = kind) (hkind : kind ∈ ["annotated_lambda",
    "value_arguments", "value_argument", "lambda_literal"]) :
    isCall p = false ∧ p.kind ≠ "navigation_expression" := by
  simp only [isCall, hp]
  clear hp
  revert kind
  decide

lemma lambdaIn_without (h : src.Spares loose) (hp : src.Keeps loose p) :
    lambdaIn (p.without loose) = (lambdaIn p).map (Place.without loose) := by
  unfold lambdaIn
  rw [kind_without]
  split
  · rename_i hkind
    obtain ⟨hcall, hnav⟩ := inner_of_kind (beq_iff_eq.mp hkind) (by simp)
    have hkinds : (fun c : Place => c.kind == "lambda_literal") ∘ Place.without loose =
        fun c => c.kind == "lambda_literal" :=
      funext fun c => by rw [Function.comp_apply, kind_without]
    rw [h.namedChildren_of_inner hp hcall hnav, List.find?_map, hkinds]
  · rfl

lemma keeps_of_lambdaIn (h : src.Spares loose) (hp : src.Keeps loose p)
    (hd : lambdaIn p = some d) : src.Keeps loose d := by
  unfold lambdaIn at hd
  split at hd
  · rename_i hkind
    obtain ⟨hcall, hnav⟩ := inner_of_kind (beq_iff_eq.mp hkind) (by simp)
    exact h.keeps_of_inner hp.1 hcall hnav (List.mem_of_find?_eq_some hd)
  · exact Option.some.inj hd ▸ hp

lemma mem_of_lastLambda {parts : List Place} (hd : lastLambda parts = some d) :
    ∃ part ∈ parts, lambdaIn part = some d := by
  obtain ⟨part, hpart, hd⟩ := Option.bind_eq_some_iff.mp hd
  exact ⟨part, (List.mem_filter.mp (List.mem_of_getLast? hpart)).1, hd⟩

lemma lastLambda_map (h : src.Spares loose) {parts : List Place}
    (hparts : ∀ d ∈ parts, src.Keeps loose d) :
    lastLambda (parts.map (Place.without loose)) =
      (lastLambda parts).map (Place.without loose) := by
  simp only [lastLambda, List.filter_map, Function.comp_def, kind_without, List.getLast?_map]
  cases hlast : (parts.filter fun p =>
      p.kind == "annotated_lambda" || p.kind == "lambda_literal").getLast? with
  | none => rfl
  | some part =>
    have hmem := (List.mem_filter.mp (List.mem_of_getLast? hlast)).1
    exact h.lambdaIn_without (hparts part hmem)

/-- The parts of a call as the smaller tree has them. -/
theorem directCall?_without (h : src.Spares loose) (hp : src.Keeps loose p) :
    directCall? (p.without loose) = (directCall? p).map (Call.map (Place.without loose)) := by
  unfold directCall?
  rw [isCall_without]
  cases hcall : isCall p with
  | false => rfl
  | true =>
    rw [h.namedChildren_without hp]
    cases hchildren : p.namedChildren with
    | nil => rfl
    | cons callee rest =>
      have hcallee := h.keeps_callee hp.1 hcall (c := callee) (by simp [hchildren])
      have hrest : rest ⊆ p.namedChildren := by simp [hchildren]
      have hkept : ∀ d ∈ callTail rest, src.Keeps loose d := fun d hd =>
        h.keeps_of_mem_callTail hp.1 hcall hrest hd
      have hhead : spread loose callee = [callee] := by simp [spread, hcallee.2]
      rw [List.flatMap_cons, hhead, List.singleton_append, List.map_cons]
      simp only [Bool.not_true, Bool.false_eq_true, if_false, kind_without]
      split
      · rfl
      · rw [h.callTail_spread hp.1 hcall hrest, lastArguments_map, h.lastLambda_map hkept]
        rfl

lemma within_of_directCall? {parts : Call} (h : src.Spares loose) (hp : src.Has p)
    (hc : directCall? p = some parts) : parts.Within (src.Keeps loose) := by
  unfold directCall? at hc
  split at hc
  · simp at hc
  rename_i hcall
  have hcall : isCall p = true := by simpa using hcall
  split at hc
  · simp at hc
  rename_i callee rest hchildren
  split at hc
  · simp at hc
  cases Option.some.inj hc
  have hrest : rest ⊆ p.namedChildren := by simp [hchildren]
  refine ⟨h.keeps_callee hp hcall (by simp [hchildren]), fun d hd => ?_, fun d hd => ?_⟩
  · obtain ⟨hmem, hkind⟩ := kind_of_lastArguments hd
    exact ⟨h.keeps_of_mem_callTail hp hcall hrest hmem, hkind⟩
  · obtain ⟨part, hpart, hd⟩ := mem_of_lastLambda hd
    exact h.keeps_of_lambdaIn (h.keeps_of_mem_callTail hp hcall hrest hpart) hd

lemma keeps_arguments (h : src.Spares loose) (hp : src.Keeps loose p)
    (hkind : p.kind = "value_arguments" ∨ p.kind = "value_argument") :
    (p.without loose).namedChildren = p.namedChildren.map (Place.without loose) ∧
      ∀ c ∈ p.namedChildren, src.Keeps loose c := by
  obtain ⟨hcall, hnav⟩ : isCall p = false ∧ p.kind ≠ "navigation_expression" := by
    rcases hkind with hkind | hkind <;> exact inner_of_kind hkind (by simp)
  exact ⟨h.namedChildren_of_inner hp hcall hnav, fun c hc => h.keeps_of_inner hp.1 hcall hnav hc⟩

end Source.Spares

end SpecLens
