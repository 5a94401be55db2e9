import SpecLens.Disk.Ignore
import SpecLens.Disk.Repository

/-!
# Walking a directory

A walk yields what stands below a directory, other than what is hidden, ignored or excluded and
what stands below that. Of the ignore files that speak of a path, `.ignore` files go before those
of version control, the nearest before those above it, and the user's own comes last.
-/

namespace SpecLens.Disk

/-- The rules of the ignore file with the given names. -/
def rulesOf (d : Disk) (file : List String) : List IgnoreRule :=
  match d.find? file with
  | some (.file contents) => IgnoreRule.readAll contents
  | _ => []

/-- The path of `names` as seen from a directory; it stays absolute if it does not lie below. -/
def seenFrom (directory names : List String) : List UInt8 :=
  if directory.isPrefixOf names then
    ("/".intercalate (names.drop directory.length)).toUTF8.toList
  else (Path.ofNames names).text.toUTF8.toList

/-- The directories above `names`, nearest first. -/
def directoriesAbove (names : List String) : List (List String) :=
  (List.range names.length).reverse.map names.take

/-- The list up to and including the first element that satisfies `p`. -/
def takeThrough {α : Type} (p : α → Bool) : List α → List α
  | [] => []
  | x :: xs => x :: if p x then [] else takeThrough p xs

/-- What the ignore files say of a path. Those of version control count only within a repository,
and no further up than its root; the user's own selects paths below the working directory. -/
def verdict? (d : Disk) (env : Environment) (names : List String) (isDirectory : Bool) :
    Option Verdict :=
  let above := directoriesAbove names
  let inRepository :=
    if above.any d.isRepository then takeThrough d.isRepository above else []
  let ask (directory : List String) (file : Option (List String)) : Option Verdict :=
    file.bind fun file =>
      IgnoreRule.verdict? (d.rulesOf file) (seenFrom directory names) isDirectory
  (above.findSome? fun a => ask a (some (a ++ [".ignore"]))) <|>
    (inRepository.findSome? fun a => ask a (some (a ++ [".gitignore"]))) <|>
    (inRepository.findSome? fun a => ask a (d.excludeFile? a)) <|>
    (if inRepository.isEmpty then none else ask d.here (d.userIgnoreFile? env))

/-- Whether a walk passes over the entry with the given names. Hidden entries can be readmitted by
an ignore file, excluded directories cannot. -/
def isSkipped (d : Disk) (env : Environment) (excluded names : List String) : Bool :=
  let isDirectory := d.find? names == some .directory
  let name := names.getLast?.getD ""
  (match d.verdict? env names isDirectory with
    | some .ignored => true
    | some .readmitted => false
    | none => name.toList.head? == some '.') ||
  (isDirectory && excluded.contains name)

/-- The lists of names that lead from `root` down to `names`, `root` itself left out. -/
def stepsBetween (root names : List String) : List (List String) :=
  (List.range (names.length - root.length)).map fun n => names.take (root.length + n + 1)

/-- Whether a walk from `root` reaches the entry with the given names. -/
def isReached (d : Disk) (env : Environment) (excluded root names : List String) : Bool :=
  root.isPrefixOf names && (stepsBetween root names).all fun step => !d.isSkipped env excluded step

/-- The entries that a walk from `root` yields, `root` itself included. -/
def walk (d : Disk) (env : Environment) (excluded root : List String) : List (List String) :=
  root :: (d.entries.map (·.1)).filter fun names =>
    names != root && d.isReached env excluded root names

end SpecLens.Disk
