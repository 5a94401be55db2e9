/-!
# Glob patterns

Patterns over relative paths: `?` and `*` stay within a name, `**` crosses directories, brackets
are classes and braces hold alternatives. A token of a pattern leaves of a text what follows it;
a text matches a pattern that can leave nothing.
-/

namespace SpecLens

/-- A part of a pattern. Texts are matched byte by byte. -/
inductive GlobToken where
  | literal (b : UInt8)
  /-- Any byte of a name. -/
  | any
  /-- Any bytes of a name. -/
  | star
  /-- Any directories at the start. -/
  | anyLead
  /-- Anything below, at the end. -/
  | anyTail
  /-- A slash, or any directories between two. -/
  | anyMiddle
  | byteClass (negated : Bool) (ranges : List (UInt8 × UInt8))
  /-- One of several patterns, none of them empty; without any, the empty text. -/
  | choice (branches : List (List GlobToken))
deriving Repr, Inhabited

namespace Glob

def slash : UInt8 := 47

/-- What a text leaves behind its first byte, if that satisfies `p`. -/
def afterByte (p : UInt8 → Bool) : List UInt8 → List (List UInt8)
  | [] => []
  | b :: bs => if p b then [bs] else []

/-- What a text leaves behind bytes that satisfy `p`, none or more of them. -/
def afterBytes (p : UInt8 → Bool) : List UInt8 → List (List UInt8)
  | [] => [[]]
  | b :: bs => (b :: bs) :: if p b then afterBytes p bs else []

/-- What a text leaves behind each of its slashes. -/
def afterSlashes : List UInt8 → List (List UInt8)
  | [] => []
  | b :: bs => if b == slash then bs :: afterSlashes bs else afterSlashes bs

/-- Whether a byte is in a class. -/
def inClass (negated : Bool) (ranges : List (UInt8 × UInt8)) (b : UInt8) : Bool :=
  (ranges.any fun (lo, hi) => lo ≤ b && b ≤ hi) != negated

mutual

/-- What a token can leave of a text. -/
def remaindersOf : GlobToken → List UInt8 → List (List UInt8)
  | .literal l, bs => afterByte (· == l) bs
  | .any, bs => afterByte (· != slash) bs
  | .star, bs => afterBytes (· != slash) bs
  | .anyLead, bs => bs :: afterSlashes bs
  | .anyTail, bs => (afterByte (· == slash) bs).flatMap (afterBytes fun _ => true)
  | .anyMiddle, bs => (afterByte (· == slash) bs).flatMap fun rest => rest :: afterSlashes rest
  | .byteClass negated ranges, bs => afterByte (inClass negated ranges) bs
  | .choice branches, bs => if branches.isEmpty then [bs] else remaindersOfSome branches bs

/-- What a pattern can leave of any of several texts. -/
def remainders : List GlobToken → List (List UInt8) → List (List UInt8)
  | [], texts => texts
  | t :: ts, texts => remainders ts (texts.flatMap fun bs => remaindersOf t bs).eraseDups

/-- What one of several patterns can leave of a text. -/
def remaindersOfSome : List (List GlobToken) → List UInt8 → List (List UInt8)
  | [], _ => []
  | ts :: branches, bs => remainders ts [bs] ++ remaindersOfSome branches bs

end

/-- Whether a text matches a pattern. -/
def isMatch (ts : List GlobToken) (bs : List UInt8) : Bool :=
  (remainders ts [bs]).any List.isEmpty

end Glob

end SpecLens
