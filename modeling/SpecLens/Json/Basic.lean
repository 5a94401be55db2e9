/-!
# JSON output

JSON values and their text in the layout meant for people: two spaces for each level, and the
fields in the order given.
-/

namespace SpecLens

inductive Json where
  | null
  | bool (b : Bool)
  | num (n : Nat)
  | str (s : String)
  | arr (items : List Json)
  | obj (fields : List (String × Json))
deriving Inhabited

namespace Json

def ofOption (s : Option String) : Json :=
  match s with
  | some s => str s
  | none => null

/-- A character within a string. -/
def escapeChar (c : Char) : List Char :=
  if c = '"' then ['\\', '"']
  else if c = '\\' then ['\\', '\\']
  else if c = '\n' then ['\\', 'n']
  else if c = '\t' then ['\\', 't']
  else if c = '\r' then ['\\', 'r']
  else if c.toNat = 8 then ['\\', 'b']
  else if c.toNat = 12 then ['\\', 'f']
  else if c.toNat < 0x20 then
    ['\\', 'u', '0', '0', Nat.digitChar (c.toNat / 16), Nat.digitChar (c.toNat % 16)]
  else [c]

def quote (s : String) : String :=
  String.ofList ('"' :: (s.toList.flatMap escapeChar ++ ['"']))

/-- The start of a line at the given level. -/
def newline (level : Nat) : String := "\n" ++ String.join (List.replicate level "  ")

mutual

/-- The text of a value that starts at the given level. -/
def render (level : Nat) : Json → String
  | null => "null"
  | bool b => if b then "true" else "false"
  | num n => toString n
  | str s => quote s
  | arr [] => "[]"
  | arr (item :: rest) =>
    "[" ++ newline (level + 1) ++ render (level + 1) item ++ renderItems (level + 1) rest ++
      newline level ++ "]"
  | obj [] => "\x7b\x7d"
  | obj (field :: rest) =>
    "\x7b" ++ newline (level + 1) ++ renderField (level + 1) field ++
      renderFields (level + 1) rest ++ newline level ++ "\x7d"

def renderItems (level : Nat) : List Json → String
  | [] => ""
  | item :: rest => "," ++ newline level ++ render level item ++ renderItems level rest

def renderField (level : Nat) : String × Json → String
  | (key, value) => quote key ++ ": " ++ render level value

def renderFields (level : Nat) : List (String × Json) → String
  | [] => ""
  | field :: rest => "," ++ newline level ++ renderField level field ++ renderFields level rest

end

def pretty (j : Json) : String := render 0 j

end Json

end SpecLens
