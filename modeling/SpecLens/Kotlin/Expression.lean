import SpecLens.Kotlin.Literal
import SpecLens.Text.Split
import SpecLens.Tree.Source

/-!
# Calls and member accesses

The shapes of expressions that declarations of tests are told by. Grammars write them in two ways:
arguments and trailing lambda stand directly under a call or in a `call_suffix`, the member
directly under a navigation or in a `navigation_suffix`. Both are read alike.
-/

namespace SpecLens.Kotlin

open Text

def identifierKinds : List String := ["identifier", "simple_identifier", "type_identifier"]

def isIdentifier (p : Place) : Bool := identifierKinds.contains p.kind

def isStringLiteral (p : Place) : Bool :=
  p.named && "string_literal".toList.isSuffixOf p.kind.toList

/-- The name an identifier stands for: backticks only quote it. -/
def unquoted (cs : List Char) : String := String.ofList (trimChar '\x60' cs)

def identifierName? (src : Source) (p : Place) : Option String :=
  if isIdentifier p then some (unquoted (src.textOf p)) else none

mutual

/-- Whether a template entry stands below a node. -/
def hasEntryBelow : Node → Bool
  | .node _ children => hasEntryAmong children

def hasEntryAmong : List Node → Bool
  | [] => false
  | child :: rest =>
    containsText "interpolat".toList child.kind.toList ||
      (child.named && hasEntryBelow child) || hasEntryAmong rest

end

def literal? (src : Source) (p : Place) : Option Literal :=
  if isStringLiteral p then some (.read (src.textOf p) (hasEntryBelow p.node)) else none

/-- The parts of a call: what is called, the arguments in parentheses and the lambda at the end. -/
structure Call where
  call : Place
  callee : Place
  arguments : Option Place
  lambda : Option Place
deriving Inhabited

def isCall (p : Place) : Bool := p.kind == "call_expression"

/-- The parts that follow the callee, in order and out of their wrappers. -/
def callTail (parts : List Place) : List Place :=
  parts.flatMap fun p => if p.kind == "call_suffix" then p.namedChildren else [p]

/-- The lambda a part stands for. -/
def lambdaIn (part : Place) : Option Place :=
  if part.kind == "annotated_lambda" then
    part.namedChildren.find? (·.kind == "lambda_literal")
  else some part

/-- The last argument list among the parts. -/
def lastArguments (parts : List Place) : Option Place :=
  (parts.filter (·.kind == "value_arguments")).getLast?

/-- The last lambda among the parts. -/
def lastLambda (parts : List Place) : Option Place :=
  (parts.filter fun p => p.kind == "annotated_lambda" || p.kind == "lambda_literal").getLast?.bind
    lambdaIn

/-- The parts of a call as the tree has them. -/
def directCall? (p : Place) : Option Call :=
  if !isCall p then none
  else match p.namedChildren with
    | [] => none
    | callee :: rest =>
      if callee.kind == "call_suffix" then none
      else
        let tail := callTail rest
        some ⟨p, callee, lastArguments tail, lastLambda tail⟩

/-- The parts of a call. A lambda given to a call that has none is the lambda of that call. -/
def call? (p : Place) : Option Call :=
  (directCall? p).map fun outer =>
    if outer.arguments.isNone && outer.lambda.isSome then
      match directCall? outer.callee with
      | some inner =>
        if inner.lambda.isNone then ⟨p, inner.callee, inner.arguments, outer.lambda⟩ else outer
      | none => outer
    else outer

/-- The expressions given as arguments, in order. -/
def Call.argumentList (c : Call) : List Place :=
  match c.arguments with
  | none => []
  | some arguments =>
    (arguments.namedChildren.filter (·.kind == "value_argument")).filterMap
      (·.namedChildren.getLast?)

/-- The name of a call of a plain identifier. -/
def callName? (src : Source) (p : Place) : Option String :=
  (call? p).bind fun c => identifierName? src c.callee

/-- A member access: the receiver and the member's identifier. -/
structure Navigation where
  receiver : Place
  member : Place
deriving Inhabited

/-- The tokens of a navigation, out of their wrappers. -/
def navigationTokens (p : Place) : List Place :=
  p.children.flatMap fun c => if c.kind == "navigation_suffix" then c.children else [c]

/-- Reads a member access over a plain dot. -/
def navigation? (p : Place) : Option Navigation :=
  if p.kind != "navigation_expression" then none
  else
    let tokens := navigationTokens p
    let named := tokens.filter fun t => t.named && !t.node.isComment
    match named.head?, named.getLast? with
    | some receiver, some member =>
      if receiver.same member || !isIdentifier member then none
      else if tokens.any fun t => !t.named && t.kind == "." then some ⟨receiver, member⟩
      else none
    | _, _ => none

/-- A member access, with the call of the member where it is called. -/
structure DotExpression where
  expression : Place
  receiver : Place
  member : Place
  selector : Option Call
deriving Inhabited

def dotExpression? (p : Place) : Option DotExpression :=
  if isCall p then
    (call? p).bind fun c =>
      (navigation? c.callee).map fun n => ⟨p, n.receiver, n.member, some c⟩
  else (navigation? p).map fun n => ⟨p, n.receiver, n.member, none⟩

/-- The shape of an expression. -/
inductive Shape where
  | call (parts : Call)
  | stringInvoke (parts : Call)
  | dot (parts : DotExpression)
  | other
deriving Inhabited

def shape (p : Place) : Shape :=
  if isCall p then
    match call? p with
    | none => .other
    | some c =>
      if isIdentifier c.callee then .call c
      else if isStringLiteral c.callee then .stringInvoke c
      else match dotExpression? p with
        | some d => .dot d
        | none => .other
  else match dotExpression? p with
    | some d => .dot d
    | none => .other

/-- The string literal that is the only argument of a call. -/
def Call.onlyLiteral? (src : Source) (c : Call) : Option Literal :=
  match c.argumentList with
  | [only] => literal? src only
  | _ => none

/-- The literal of `name("literal") \x7b \x7d` for one of the names. -/
def literalOfCall? (src : Source) (names : List String) (p : Place) : Option Literal :=
  (call? p).bind fun c =>
    (identifierName? src c.callee).bind fun name =>
      if names.contains name && c.lambda.isSome then c.onlyLiteral? src else none

/-- Whether a dot expression calls the given member with a lambda at the end. -/
def DotExpression.invokes (src : Source) (member : String) (d : DotExpression) : Bool :=
  identifierName? src d.member == some member && (d.selector.bind (·.lambda)).isSome

/-- The literal of `name("literal").member(..) \x7b \x7d` for one of the names. -/
def literalOfChain? (src : Source) (names : List String) (member : String) (p : Place) :
    Option Literal :=
  (dotExpression? p).bind fun d =>
    if d.invokes src member then
      (call? d.receiver).bind fun c =>
        (identifierName? src c.callee).bind fun name =>
          if c.lambda.isNone && names.contains name then c.onlyLiteral? src else none
    else none

/-- The literal of `"literal" \x7b \x7d`. -/
def literalOfInvoke? (src : Source) (p : Place) : Option Literal :=
  (call? p).bind fun c =>
    if c.lambda.isSome && c.argumentList.isEmpty then literal? src c.callee else none

/-- The literal of `"literal".member(..) \x7b \x7d`. -/
def literalOfReceiver? (src : Source) (member : String) (p : Place) : Option Literal :=
  (dotExpression? p).bind fun d =>
    if d.invokes src member then literal? src d.receiver else none

end SpecLens.Kotlin
