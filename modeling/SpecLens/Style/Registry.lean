import SpecLens.Style.Builtin
import SpecLens.Text.LowerCase
import SpecLens.Text.Split

/-!
# The style registry

Styles in the order of their registration. Where a class could match several styles, the first
one owns it.
-/

namespace SpecLens

open Text

/-- A name for comparison: without blanks and in lower case. -/
def normalName (name : String) : List Char := lower (squeeze name.toList)

/-- The last segment of a dotted name. -/
def simpleName (fqn : String) : String := String.ofList (afterLast '.' fqn.toList)

/-- The styles that are known. -/
structure Registry where
  styles : List Style
deriving DecidableEq, Repr, Inhabited

namespace Registry

def empty : Registry := ⟨[]⟩

/-- The list with `s` in place of the first style of its base class, or at the end. -/
def insertStyle (s : Style) : List Style → List Style
  | [] => [s]
  | t :: rest => if t.fqn = s.fqn then s :: rest else t :: insertStyle s rest

/-- The base classes keep their order, and a new one comes last. -/
theorem map_fqn_insertStyle (s : Style) (styles : List Style) :
    (insertStyle s styles).map (·.fqn) =
      if s.fqn ∈ styles.map (·.fqn) then styles.map (·.fqn) else styles.map (·.fqn) ++ [s.fqn] := by
  induction styles with
  | nil => simp [insertStyle]
  | cons t rest ih =>
    by_cases h : t.fqn = s.fqn
    · simp [insertStyle, h]
    · have h' : s.fqn ≠ t.fqn := fun e => h e.symm
      simp only [insertStyle, h, if_false, List.map_cons, ih, List.mem_cons, h', false_or]
      split <;> simp

theorem find?_insertStyle (s : Style) (styles : List Style) (fqn : String) :
    (insertStyle s styles).find? (·.fqn = fqn) =
      if s.fqn = fqn then some s else styles.find? (·.fqn = fqn) := by
  induction styles with
  | nil => simp [insertStyle, List.find?_cons]; split <;> simp_all
  | cons t rest ih =>
    by_cases h : t.fqn = s.fqn
    · by_cases hs : s.fqn = fqn <;> simp [insertStyle, h, hs]
    · by_cases ht : t.fqn = fqn
      · have hs : s.fqn ≠ fqn := fun e => h (ht.trans e.symm)
        simp [insertStyle, ht, hs]
        grind
      · simp [insertStyle, h, ht, ih]

/-- Registers a style; one of the same base class is replaced where it stands. -/
def register (r : Registry) (s : Style) : Registry := ⟨insertStyle s r.styles⟩

def ofStyles (styles : List Style) : Registry := styles.foldl register empty

/-- All built-in styles. -/
def full : Registry := ofStyles Style.builtin

/-- The built-in styles other than those with one of the given names. -/
def withDisabled (names : List String) : Registry :=
  ofStyles (Style.builtin.filter fun s => !(names.map normalName).contains (normalName s.name))

def forFqn? (r : Registry) (fqn : String) : Option Style :=
  r.styles.find? (·.fqn = fqn)

/-- The first style whose base class is among the candidates. -/
def forSupertypes? (r : Registry) (candidates : List String) : Option Style :=
  r.styles.find? fun s => candidates.contains s.fqn

/-- Finds a style by its name or by the simple name of its base class. -/
def byName? (r : Registry) (name : String) : Option Style :=
  r.styles.find? fun s =>
    normalName s.name == normalName name || normalName (simpleName s.fqn) == normalName name

end Registry

end SpecLens
