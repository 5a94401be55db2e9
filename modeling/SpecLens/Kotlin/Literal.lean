import SpecLens.Text.Numeral
import SpecLens.Text.Split

/-!
# String literals

`Literal.read` reads the text of a string literal, quoted or raw, into the value it stands for and
whether template entries make that value a hint only. `escape` writes a text so that it reads back
from between quotes: `unescape_escape` and `hasEntry_escape` say so.
-/

namespace SpecLens.Kotlin

open Text

/-- The value of a string literal. If it is interpolated, `text` is only a hint. -/
structure Literal where
  text : String
  interpolated : Bool
deriving DecidableEq, Repr, Inhabited

/-- A code point in base 16, possibly after a plus sign. It takes at least one digit and must be
the number of a character. -/
def codePoint? (cs : List Char) : Option Char :=
  let digits := dropPlus cs
  if digits.isEmpty then none
  else (hexValue? 0 digits).bind fun n => if n.isValidChar then some (Char.ofNat n) else none

/-- The character that a backslash before `c` stands for, other than in a code point. -/
def escaped (c : Char) : Char :=
  match c with
  | 'n' => '\n'
  | 't' => '\t'
  | 'r' => '\r'
  | 'b' => Char.ofNat 8
  | c => c

/-- The value of the text between quotes. A code point takes up to four characters; where they
are none, they stay as written. -/
def unescape : List Char → List Char
  | [] => []
  | '\\' :: 'u' :: cs =>
    match codePoint? (cs.take 4) with
    | some c => c :: unescape (cs.drop 4)
    | none => '\\' :: 'u' :: (cs.take 4 ++ unescape (cs.drop 4))
  | '\\' :: c :: cs => escaped c :: unescape cs
  | c :: cs => c :: unescape cs
termination_by cs => cs.length
decreasing_by all_goals (simp only [List.length_cons, List.length_drop]; omega)

/-- Whether `c` may follow the `$` of a template entry. -/
def startsEntry (c : Char) : Bool :=
  c == '\x7b' || ('a' ≤ c && c ≤ 'z') || ('A' ≤ c && c ≤ 'Z') || c == '_'

/-- Whether a template entry starts in a text, given whether the backslashes just before it are
even in number: an odd one takes the `$` for itself. -/
def hasEntryFrom (even : Bool) : List Char → Bool
  | [] => false
  | '\\' :: cs => hasEntryFrom (!even) cs
  | '$' :: cs => (even && (cs.head?.map startsEntry).getD false) || hasEntryFrom true cs
  | _ :: cs => hasEntryFrom true cs

/-- Whether a text holds an unescaped template entry. -/
def hasEntry (cs : List Char) : Bool := hasEntryFrom true cs

def rawQuote : List Char := ['"', '"', '"']

/-- The text between the quotes of a quoted literal. A closing quote counts unless a backslash
stands before it, and counts nevertheless after two of them. -/
def quotedBody (cs : List Char) : List Char :=
  let body := (dropLead? ['"'] cs).getD cs
  match dropTail? ['"'] body with
  | some inner =>
    if ['\\'].isSuffixOf inner && !(['\\', '\\'].isSuffixOf inner) then body else inner
  | none => body

/-- Reads a literal. `hasEntryNode` tells that the parser found a template entry in it. Missing
closing quotes are tolerated. -/
def Literal.read (cs : List Char) (hasEntryNode : Bool) : Literal :=
  match dropLead? rawQuote cs with
  | some rest =>
    let body := (dropTail? rawQuote rest).getD rest
    ⟨String.ofList body, hasEntryNode || containsText ['$', '\x7b'] body || hasEntry body⟩
  | none =>
    let body := quotedBody cs
    ⟨String.ofList (unescape body), hasEntryNode || hasEntry body⟩

/-- How a character is written between quotes. -/
def escapeChar (c : Char) : List Char :=
  match c with
  | '\\' => ['\\', '\\']
  | '"' => ['\\', '"']
  | '$' => ['\\', '$']
  | '\n' => ['\\', 'n']
  | '\t' => ['\\', 't']
  | '\r' => ['\\', 'r']
  | c => [c]

/-- A text as it is written between quotes. -/
def escape (cs : List Char) : List Char :=
  cs.flatMap escapeChar

@[simp] theorem escape_cons (c : Char) (cs : List Char) :
    escape (c :: cs) = escapeChar c ++ escape cs := by
  simp [escape]

theorem unescape_escapeChar_append (c : Char) (cs : List Char) :
    unescape (escapeChar c ++ cs) = c :: unescape cs := by
  unfold escapeChar
  split
  case h_7 =>
    rw [List.singleton_append, unescape] <;> intros <;> simp_all
  all_goals simp [unescape, escaped]

/-- An escaped text reads back. -/
theorem unescape_escape (cs : List Char) : unescape (escape cs) = cs := by
  induction cs with
  | nil => simp [escape, unescape]
  | cons c cs ih => rw [escape_cons, unescape_escapeChar_append, ih]

theorem hasEntryFrom_escapeChar_append (c : Char) (cs : List Char) :
    hasEntryFrom true (escapeChar c ++ cs) = hasEntryFrom true cs := by
  unfold escapeChar
  split <;> simp [hasEntryFrom]

/-- An escaped text holds no template entry. -/
theorem hasEntry_escape (cs : List Char) : hasEntry (escape cs) = false := by
  unfold hasEntry
  induction cs with
  | nil => rfl
  | cons c cs ih => rw [escape_cons, hasEntryFrom_escapeChar_append, ih]

/-- The literal that stands for a text. -/
def quote (cs : List Char) : List Char :=
  '"' :: (escape cs ++ ['"'])

end SpecLens.Kotlin
