import SpecLens.Kotlin.Expression

/-!
# From tokens up to expressions

An editor offers single tokens. The brace that opens a trailing lambda leads to the call that owns
the lambda, the dot of a member access to the whole expression.
-/

namespace SpecLens.Kotlin

/-- Whether `p` is what the call `parent` calls. -/
def isCalleeOf (p parent : Place) : Bool :=
  isCall parent && (parent.namedChildren.head?.map (·.same p)).getD false

/-- The last of the calls `calls`, nearest first, each of which has the one before as its callee;
`p` itself if it is not called. -/
def outermostCallFrom (p : Place) : List Place → Place
  | [] => p
  | parent :: above => if isCalleeOf p parent then outermostCallFrom parent above else p

def outermostCall (p : Place) : Place := outermostCallFrom p p.ancestors

def isToken (text : String) (p : Place) : Bool := !p.named && p.kind == text

/-- The parent of a place, passing over one wrapper of the given kind. -/
def above? (wrapper : String) (p : Place) : Option Place :=
  if p.kind == wrapper then p.parent else some p

/-- The call that owns the trailing lambda which `brace` opens. -/
def callOfBrace? (brace : Place) : Option Place := do
  guard (isToken "\x7b" brace)
  let lambda ← brace.parent
  guard (lambda.kind == "lambda_literal" && lambda.start == brace.start)
  let owner ← lambda.parent
  let owner ← above? "annotated_lambda" owner
  let owner ← above? "call_suffix" owner
  let parts ← call? owner
  guard ((parts.lambda.map (·.same lambda)).getD false)
  pure owner

/-- The member access that `dot` separates. If the member is called, the outermost of the calls
around it. -/
def expressionOfDot? (dot : Place) : Option Place := do
  guard (isToken "." dot)
  let parent ← dot.parent
  let nav ← above? "navigation_suffix" parent
  guard (navigation? nav).isSome
  match nav.parent with
  | some call => pure (if isCalleeOf nav call then outermostCall call else nav)
  | none => pure nav

end SpecLens.Kotlin
