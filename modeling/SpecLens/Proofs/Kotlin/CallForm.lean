import SpecLens.Proofs.Style.TokenForm

/-!
# Forms of a call

Grammars attach the argument and the lambda of a call in different ways. However they do it, the
same callee, argument and lambda are read, and only one of the calls has a block.
-/

namespace SpecLens

open Kotlin Place Text

/-- What a string literal without template entries holds between its quotes. -/
inductive LiteralPart where
  | content (start stop : Nat)
  | escape (start stop : Nat)

namespace Node

def part : LiteralPart → Node
  | .content start stop => .rule "string_content" start stop []
  | .escape start stop => .rule "escape_sequence" start stop []

/-- A string literal without template entries. -/
def plainLiteral (start stop : Nat) (parts : List LiteralPart) : Node :=
  .rule "string_literal" start stop
    (.fixed "\"" start :: (parts.map part ++ [.fixed "\"" (stop - 1)]))

def soleArgument (start stop : Nat) (value : Node) : Node :=
  .rule "value_arguments" start stop [
    .fixed "(" start,
    .rule "value_argument" (start + 1) (stop - 1) [value],
    .fixed ")" (stop - 1)]

end Node

/-- How a grammar attaches the parts of a call. -/
structure CallForm where
  /-- The lambda belongs to a call of its own, which calls the one with the arguments. -/
  nested : Bool
  /-- The parts stand in a `call_suffix`. -/
  suffixed : Bool
  /-- The lambda stands in an `annotated_lambda`. -/
  annotated : Bool

namespace CallForm

/-- The parts of a call behind its callee. -/
def attach (f : CallForm) (start stop : Nat) (parts : List Node) : List Node :=
  if f.suffixed then [.rule "call_suffix" start stop parts] else parts

def block (f : CallForm) (start : Nat) : Node :=
  let lambda := .rule "lambda_literal" start (start + 3) [
    .fixed "\x7b" start, .fixed "\x7d" (start + 2)]
  if f.annotated then .rule "annotated_lambda" start (start + 3) [lambda] else lambda

/-- A keyword with a value in parentheses from `opening` to `closing`, and a block. -/
def keywordCall (f : CallForm) (opening closing : Nat) (value : Node) : Node :=
  let keyword := .identifier 0 opening
  let argument := .soleArgument opening closing value
  let stop := closing + 4
  if f.nested then
    .rule "call_expression" 0 stop (
      .rule "call_expression" 0 closing (keyword :: f.attach opening closing [argument]) ::
      f.attach (closing + 1) stop [f.block (closing + 1)])
  else
    .rule "call_expression" 0 stop (
      keyword :: f.attach opening stop [argument, f.block (closing + 1)])

/-- A literal that ends at `closing`, and a block. -/
def bareCall (f : CallForm) (closing : Nat) (literal : Node) : Node :=
  .rule "call_expression" 0 (closing + 4) (
    literal :: f.attach (closing + 1) (closing + 4) [f.block (closing + 1)])

end CallForm

/-- Whether a node counts among the named children of its parent. -/
def Node.counts (n : Node) : Bool := n.named && !n.isComment

/-- A named child that is no wrapper of other parts. -/
def Node.IsPart (n : Node) : Prop := n.counts = true ∧ n.kind ≠ "call_suffix"

/-- The kinds of the parts of a stub. -/
def partKinds : List String :=
  ["call_expression", "identifier", "value_arguments", "annotated_lambda", "lambda_literal",
    "value_argument", "string_literal"]

lemma Node.counts_rule {kind : String} (h : kind ∈ "call_suffix" :: partKinds) (start stop : Nat)
    (children : List Node) : (rule kind start stop children).counts = true := by
  have hkinds : ∀ kind ∈ "call_suffix" :: partKinds,
      (!containsText "comment".toList kind.toList) = true := by
    decide
  exact hkinds kind h

lemma Node.isPart_rule {kind : String} (h : kind ∈ partKinds) (start stop : Nat)
    (children : List Node) : (rule kind start stop children).IsPart := by
  have hkinds : ∀ kind ∈ partKinds, kind ≠ "call_suffix" := by decide
  exact ⟨counts_rule (List.mem_cons_of_mem _ h) start stop children, hkinds kind h⟩

lemma kind_of_rule {p : Place} {kind : String} {start stop : Nat} {children : List Node}
    (hp : p.node = .rule kind start stop children) : p.kind = kind :=
  congrArg Node.kind hp

lemma map_node_namedChildren (p : Place) :
    p.namedChildren.map (·.node) = p.node.children.filter Node.counts := by
  have hnodes : p.children.map (·.node) = p.node.children := by
    apply List.ext_getElem <;> simp [Place.children, down]
  rw [← hnodes, List.filter_map]
  rfl

lemma map_node_namedChildren_of_rule {p : Place} {kind : String} {start stop : Nat}
    {children : List Node} (hp : p.node = .rule kind start stop children)
    (h : ∀ c ∈ children, c.counts = true) : p.namedChildren.map (·.node) = children := by
  rw [map_node_namedChildren, hp]
  exact List.filter_eq_self.mpr h

namespace CallForm

variable {f : CallForm} {start stop : Nat} {parts : List Node}

lemma callTail_attach {places : List Place} (h : places.map (·.node) = f.attach start stop parts)
    (hparts : ∀ part ∈ parts, part.IsPart) : (callTail places).map (·.node) = parts := by
  unfold attach at h
  split at h
  · obtain ⟨suffix, rfl, hsuffix⟩ := List.map_eq_singleton_iff.mp h
    have hkind : suffix.kind = "call_suffix" := kind_of_rule hsuffix
    rw [callTail, List.flatMap_singleton, hkind, if_pos (by rfl), map_node_namedChildren, hsuffix]
    exact List.filter_eq_self.mpr fun part hpart => (hparts part hpart).1
  · have hplain : callTail places = places.flatMap fun p => [p] := by
      apply List.flatMap_congr
      intro p hp
      have hkind : p.kind ≠ "call_suffix" := (hparts p.node (h ▸ List.mem_map_of_mem hp)).2
      exact if_neg (by simpa using hkind)
    rw [hplain, List.flatMap_singleton', h]

lemma directCall?_attach {p : Place} {a b : Nat} {callee : Node}
    (hp : p.node = .rule "call_expression" a b (callee :: f.attach start stop parts))
    (hcallee : callee.IsPart) (hparts : ∀ part ∈ parts, part.IsPart) :
    ∃ q places, directCall? p = some ⟨p, q, lastArguments places, lastLambda places⟩ ∧
      q.node = callee ∧ places.map (·.node) = parts := by
  have hcounts : ∀ n ∈ callee :: f.attach start stop parts, n.counts = true := by
    intro n hn
    rcases List.mem_cons.mp hn with rfl | hn
    · exact hcallee.1
    · unfold attach at hn
      split at hn
      · rw [List.mem_singleton.mp hn]
        exact Node.counts_rule List.mem_cons_self _ _ _
      · exact (hparts n hn).1
  obtain ⟨q, rest, hnamed, hq, hrest⟩ :=
    List.map_eq_cons_iff.mp (map_node_namedChildren_of_rule hp hcounts)
  refine ⟨q, callTail rest, ?_, hq, callTail_attach hrest hparts⟩
  have hcall : isCall p = true := beq_iff_eq.mpr (kind_of_rule hp)
  have hkind : (q.kind == "call_suffix") = false := by
    rw [Place.kind, hq]
    simpa using hcallee.2
  simp [directCall?, hcall, hnamed, hkind]

lemma isPart_block (f : CallForm) (start : Nat) : (f.block start).IsPart := by
  unfold block
  dsimp only
  split <;> exact Node.isPart_rule (by decide) _ _ _

lemma isPart_keyword : (Node.identifier start stop).IsPart :=
  Node.isPart_rule (by decide) _ _ _

lemma isPart_soleArgument (start stop : Nat) (value : Node) :
    (Node.soleArgument start stop value).IsPart :=
  Node.isPart_rule (by decide) _ _ _

lemma lambda_of_block {p : Place} (hp : p.node = f.block start) :
    (p.kind == "annotated_lambda" || p.kind == "lambda_literal") = true ∧
      (p.kind == "value_arguments") = false ∧ (lambdaIn p).isSome = true := by
  unfold block at hp
  dsimp only at hp
  split at hp
  · have hkind : p.kind = "annotated_lambda" := kind_of_rule hp
    have hlambda := map_node_namedChildren_of_rule hp
      (by simpa using Node.counts_rule (by decide) _ _ _)
    obtain ⟨l, hl, hnode⟩ := List.map_eq_singleton_iff.mp hlambda
    have hlkind : l.kind = "lambda_literal" := kind_of_rule hnode
    exact ⟨by simp [hkind], by simp [hkind], by simp [lambdaIn, hkind, hl, hlkind]⟩
  · have hkind : p.kind = "lambda_literal" := kind_of_rule hp
    exact ⟨by simp [hkind], by simp [hkind], by simp [lambdaIn, hkind]⟩

/-- The block of a call is its lambda and no argument list. -/
lemma last_concat_block {p : Place} (hp : p.node = f.block start) (before : List Place) :
    (lastLambda (before ++ [p])).isSome = true ∧
      lastArguments (before ++ [p]) = lastArguments before := by
  obtain ⟨hkind, hargument, hlambda⟩ := lambda_of_block hp
  exact ⟨by simpa [lastLambda, List.filter_append, hkind] using hlambda,
    by simp [lastArguments, List.filter_append, hargument]⟩

variable {p : Place} {opening closing : Nat} {value literal : Node}

/-- The argument of a call is its argument list and no lambda. -/
lemma last_argument (hp : p.node = .soleArgument start stop value) :
    lastLambda [p] = none ∧ lastArguments [p] = some p := by
  have hkind : p.kind = "value_arguments" := kind_of_rule hp
  exact ⟨by simp [lastLambda, hkind], by simp [lastArguments, hkind]⟩

lemma argumentList_soleArgument {c : Call} (hc : c.arguments = some p)
    (hp : p.node = .soleArgument start stop value) (hvalue : value.counts = true) :
    c.argumentList.map (·.node) = [value] := by
  have hargument : p.namedChildren.map (·.node) =
      [.rule "value_argument" (start + 1) (stop - 1) [value]] := by
    rw [map_node_namedChildren, hp]
    exact List.filter_cons_of_pos (Node.counts_rule (by decide) _ _ _)
  obtain ⟨a, ha, hnode⟩ := List.map_eq_singleton_iff.mp hargument
  have hkind : a.kind = "value_argument" := kind_of_rule hnode
  have hchildren := map_node_namedChildren_of_rule hnode (by simpa using hvalue)
  obtain ⟨v, hv, rfl⟩ := List.map_eq_singleton_iff.mp hchildren
  simp [Call.argumentList, hc, ha, hkind, hv]

/-- What the reading of a call finds in a keyword call. -/
lemma call?_keywordCall (hp : p.node = f.keywordCall opening closing value)
    (hvalue : value.counts = true) :
    ∃ c, call? p = some c ∧ c.callee.node = .identifier 0 opening ∧
      c.argumentList.map (·.node) = [value] ∧ c.lambda.isSome = true := by
  unfold keywordCall at hp
  dsimp only at hp
  split at hp
  · obtain ⟨q, places, houter, hq, hplaces⟩ := directCall?_attach hp
      (Node.isPart_rule (by decide) _ _ _) (by simpa using isPart_block f _)
    obtain ⟨block, rfl, hblock⟩ := List.map_eq_singleton_iff.mp hplaces
    obtain ⟨k, places, hinner, hk, hplaces⟩ := directCall?_attach hq isPart_keyword
      (by simpa using isPart_soleArgument _ _ _)
    obtain ⟨argument, rfl, hargument⟩ := List.map_eq_singleton_iff.mp hplaces
    obtain ⟨hlambda, hnone⟩ : (lastLambda [block]).isSome = true ∧ lastArguments [block] = none :=
      last_concat_block hblock []
    obtain ⟨hnolambda, hsome⟩ := last_argument hargument
    refine ⟨⟨p, k, some argument, lastLambda [block]⟩, ?_, hk,
      argumentList_soleArgument rfl hargument hvalue, hlambda⟩
    simp [call?, houter, hinner, hnone, hlambda, hnolambda, hsome]
  · obtain ⟨q, places, hdirect, hq, hplaces⟩ := directCall?_attach hp isPart_keyword
      (by simpa using ⟨isPart_soleArgument _ _ _, isPart_block f _⟩)
    obtain ⟨argument, rest, rfl, hargument, hrest⟩ := List.map_eq_cons_iff.mp hplaces
    obtain ⟨block, rfl, hblock⟩ := List.map_eq_singleton_iff.mp hrest
    obtain ⟨hlambda, harguments⟩ : (lastLambda [argument, block]).isSome = true ∧
        lastArguments [argument, block] = lastArguments [argument] :=
      last_concat_block hblock [argument]
    rw [(last_argument hargument).2] at harguments
    refine ⟨⟨p, q, some argument, lastLambda [argument, block]⟩, ?_, hq,
      argumentList_soleArgument rfl hargument hvalue, hlambda⟩
    simp [call?, hdirect, harguments]

/-- What the reading of a call finds in a bare call. -/
lemma call?_bareCall (hp : p.node = f.bareCall closing literal) (hliteral : literal.IsPart)
    (hcall : literal.kind ≠ "call_expression") :
    ∃ c, call? p = some c ∧ c.callee.node = literal ∧ c.argumentList = [] ∧
      c.lambda.isSome = true := by
  obtain ⟨q, places, hdirect, hq, hplaces⟩ := directCall?_attach hp hliteral
    (by simpa using isPart_block f _)
  obtain ⟨block, rfl, hblock⟩ := List.map_eq_singleton_iff.mp hplaces
  obtain ⟨hlambda, hnone⟩ : (lastLambda [block]).isSome = true ∧ lastArguments [block] = none :=
    last_concat_block hblock []
  have hq' : directCall? q = none := by
    have hkind : isCall q = false := by
      rw [isCall, Place.kind, hq]
      exact beq_eq_false_iff_ne.mpr hcall
    simp [directCall?, hkind]
  refine ⟨⟨p, q, none, lastLambda [block]⟩, ?_, hq, rfl, hlambda⟩
  simp [call?, hdirect, hq', hnone]

end CallForm

/-! ### The calls in a stub -/

def Node.CallFree (n : Node) : Prop := ∀ p : Place, p.node = n → p.preorder.filter isCall = []

variable {start stop : Nat}

lemma calls_eq_nil {places : List Place} (h : ∀ c ∈ places, c.node.CallFree) :
    (places.flatMap preorder).filter isCall = [] := by
  rw [List.filter_flatMap, List.flatMap_eq_nil_iff]
  exact fun c hc => h c hc c rfl

lemma Node.callFree {n : Node} (hkind : n.kind ≠ "call_expression")
    (h : ∀ c ∈ n.children, c.CallFree) : n.CallFree := by
  rintro p rfl
  have hnot : isCall p = false := beq_eq_false_iff_ne.mpr hkind
  have hbelow : (p.children.flatMap preorder).filter isCall = [] := by
    apply calls_eq_nil
    intro c hc
    obtain ⟨i, child, hchild, rfl⟩ := mem_children.mp hc
    exact h child (List.mem_of_getElem? hchild)
  rw [preorder_eq, List.filter_cons_of_neg (by simp [hnot]), hbelow]

/-- Next to those in its callee, a call is the only one where its other parts hold none. -/
lemma calls_of_callee {p : Place} {callee : Node} {rest : List Node}
    (hp : p.node = .rule "call_expression" start stop (callee :: rest))
    (hrest : ∀ c ∈ rest, c.CallFree) :
    p.preorder.filter isCall = p :: (p.down 0 callee).preorder.filter isCall := by
  have hcall : isCall p = true := beq_iff_eq.mpr (kind_of_rule hp)
  have hchildren : p.children = p.down 0 callee :: rest.mapIdx fun i => p.down (i + 1) := by
    rw [Place.children, hp]
    exact List.mapIdx_cons
  have hbelow : ((rest.mapIdx fun i => p.down (i + 1)).flatMap preorder).filter isCall = [] := by
    apply calls_eq_nil
    intro c hc
    obtain ⟨i, hi, rfl⟩ := List.mem_mapIdx.mp hc
    exact hrest _ (List.getElem_mem hi)
  rw [preorder_eq, List.filter_cons_of_pos hcall, hchildren, List.flatMap_cons, List.filter_append,
    hbelow, List.append_nil]

lemma Node.callFree_rule {kind : String} {children : List Node} (hkind : kind ≠ "call_expression")
    (h : ∀ c ∈ children, c.CallFree) : (rule kind start stop children).CallFree :=
  callFree hkind h

lemma Node.callFree_fixed {text : String} (hkind : text ≠ "call_expression") :
    (fixed text start).CallFree :=
  callFree hkind fun _ hc => (List.not_mem_nil hc).elim

lemma Node.callFree_plainLiteral (parts : List LiteralPart) :
    (plainLiteral start stop parts).CallFree := by
  refine callFree_rule (by decide) fun c hc => ?_
  rcases List.mem_cons.mp hc with rfl | hc
  · exact callFree_fixed (by decide)
  rcases List.mem_append.mp hc with hc | hc
  · obtain ⟨part, -, rfl⟩ := List.mem_map.mp hc
    cases part <;> exact callFree_rule (by decide) (by simp)
  · rw [List.mem_singleton.mp hc]
    exact callFree_fixed (by decide)

lemma Node.callFree_soleArgument {value : Node} (hvalue : value.CallFree) :
    (soleArgument start stop value).CallFree := by
  refine callFree_rule (by decide) ?_
  rintro c hc
  simp only [List.mem_cons, List.not_mem_nil, or_false] at hc
  rcases hc with rfl | rfl | rfl
  · exact callFree_fixed (by decide)
  · exact callFree_rule (by decide) (by simpa using hvalue)
  · exact callFree_fixed (by decide)

namespace CallForm

variable {f : CallForm} {opening closing : Nat} {value literal : Node} {p : Place}

lemma callFree_block : (f.block start).CallFree := by
  have hlambda : (Node.rule "lambda_literal" start (start + 3) [
      .fixed "\x7b" start, .fixed "\x7d" (start + 2)]).CallFree := by
    refine Node.callFree_rule (by decide) ?_
    rintro c hc
    simp only [List.mem_cons, List.not_mem_nil, or_false] at hc
    rcases hc with rfl | rfl <;> exact Node.callFree_fixed (by decide)
  unfold block
  dsimp only
  split
  · exact Node.callFree_rule (by decide) (by simpa using hlambda)
  · exact hlambda

lemma callFree_attach {parts : List Node} (hparts : ∀ part ∈ parts, part.CallFree) :
    ∀ n ∈ f.attach start stop parts, n.CallFree := by
  unfold attach
  split
  · simpa using Node.callFree_rule (by decide) hparts
  · exact hparts

lemma callFree_keyword : (Node.identifier start stop).CallFree :=
  Node.callFree_rule (by decide) (by simp)

lemma not_hasBlock_of_argument {a b start' stop' : Nat} {callee : Node}
    (hp : p.node = .rule "call_expression" a b (
      callee :: f.attach start stop [.soleArgument start' stop' value]))
    (hcallee : callee.IsPart) : ¬HasBlock p := by
  rintro ⟨c, l, hc, hl, -⟩
  obtain ⟨outer, hdirect, hlambda, -⟩ := call?_eq_some hc
  obtain ⟨k, places, hinner, -, hplaces⟩ :=
    directCall?_attach hp hcallee (by simpa using isPart_soleArgument _ _ _)
  obtain ⟨argument, rfl, hargument⟩ := List.map_eq_singleton_iff.mp hplaces
  cases hinner.symm.trans hdirect
  rw [hlambda, (last_argument hargument).1] at hl
  simp at hl

/-- A keyword call is one call, or two of which the second has no block. -/
lemma calls_keywordCall (hp : p.node = f.keywordCall opening closing value)
    (hvalue : value.CallFree) : ∃ others, p.preorder.filter isCall = p :: others ∧
      ∀ q ∈ others, ¬HasBlock q := by
  have hargument : (Node.soleArgument opening closing value).CallFree :=
    Node.callFree_soleArgument hvalue
  unfold keywordCall at hp
  dsimp only at hp
  split at hp
  · refine ⟨_, calls_of_callee hp (callFree_attach (by simpa using callFree_block)), fun q hq => ?_⟩
    rw [calls_of_callee rfl (callFree_attach (by simpa using hargument)),
      callFree_keyword _ rfl, List.mem_singleton] at hq
    rw [hq]
    exact not_hasBlock_of_argument rfl isPart_keyword
  · refine ⟨[], ?_, by simp⟩
    rw [calls_of_callee hp (callFree_attach (by simpa using ⟨hargument, callFree_block⟩)),
      callFree_keyword _ rfl]

lemma calls_bareCall (hp : p.node = f.bareCall closing literal) (hliteral : literal.CallFree) :
    p.preorder.filter isCall = [p] := by
  rw [calls_of_callee hp (callFree_attach (by simpa using callFree_block)), hliteral _ rfl]

end CallForm

end SpecLens
