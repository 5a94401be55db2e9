import SpecLens.Disk.Basic
import SpecLens.Disk.Environment
import SpecLens.Disk.GitConfig
import SpecLens.Text.Split

/-!
# Repositories

Which directories version control keeps its data in, and which ignore files belong to a repository
and to the user.
-/

namespace SpecLens.Disk

open Text

/-- The names under which version control keeps its data. -/
def repositoryMarks : List String := [".git", ".jj"]

/-- Whether a directory is the root of a repository. -/
def isRepository (d : Disk) (directory : List String) : Bool :=
  repositoryMarks.any fun mark => (d.find? (directory ++ [mark])).isSome

/-- The first line of a file, if there is one and it is a text. -/
def firstLine? (contents : List UInt8) : Option (List Char) :=
  ((lines contents).head?.bind ofBytes?).map fun line => withoutBreak line.toList

/-- The data that all worktrees of a repository share. The `.git` file of a worktree leads to its
own data, which lead on to those. -/
def sharedData? (d : Disk) (gitFile : List UInt8) : Option Path := do
  let own ← dropLead? "gitdir: ".toList (← firstLine? gitFile)
  let own : Path := ⟨String.ofList own⟩
  let shared ← firstLine? (← (d.read (own.join ⟨"commondir"⟩)).toOption)
  let path : Path := ⟨String.ofList shared⟩
  pure (if shared.head? = some '.' then own.join path else path)

/-- The ignore file in the data of the repository at a directory. -/
def excludeFile? (d : Disk) (directory : List String) : Option (List String) :=
  match d.find? (directory ++ [".git"]) with
  | some (.file contents) =>
    (d.sharedData? contents).bind fun shared => (d.follow (shared.join ⟨"info/exclude"⟩)).toOption
  | _ => some (directory ++ [".git", "info", "exclude"])

/-- The ignore file that a configuration file sets. Tildes in its path stand for the home
directory. -/
def ignoreFileSetting? (d : Disk) (env : Environment) (file : Path) : Option Path := do
  let text ← ofBytes? (← GitConfig.value? "excludesfile" (← (d.read file).toOption))
  let home := (env.home?.map (·.text.toList)).getD ['~']
  pure ⟨String.ofList (text.toList.flatMap fun c => if c = '~' then home else [c])⟩

/-- The user's ignore file: the one that is set, or else the one in the directory for
configuration. -/
def userIgnoreFile? (d : Disk) (env : Environment) : Option (List String) := do
  let file ← (env.gitConfigFiles.findSome? (d.ignoreFileSetting? env)).or
    (env.gitDirectory?.map fun directory => directory.join ⟨"ignore"⟩)
  (d.follow file).toOption

end SpecLens.Disk
