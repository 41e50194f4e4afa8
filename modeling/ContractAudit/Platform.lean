import ContractAudit.Disk
import ContractAudit.Text.Blank

/-!
# The platform

What a run takes from its machine beside the files: the home directories, which a path can name by a
tilde, and the standard names of characters. Both differ between machines.
-/

namespace ContractAudit

structure Platform where
  /-- The home directory of a user, if it is known. The user who runs the program has no name. -/
  home : String → Option String
  /-- The code point of the character with a name. -/
  characters : String → Option Nat

/-- What is wrong with a path that leads to no place of a tree. -/
inductive PathFault where
  | nul (error : NulInPath)
  | homeless
deriving DecidableEq, Repr

def PathFault.message : PathFault → String
  | .nul error => error.message
  | .homeless => "Could not determine home directory."

namespace Platform

/-- A path with the home directory that its first name stands for, if that is known. -/
def expand (platform : Platform) (path : String) : String :=
  match path.toList with
  | '~' :: rest =>
      match platform.home (String.ofList (rest.takeWhile (· ≠ '/'))) with
      | some home =>
          let expanded := Text.trimEnd (· = '/') home.toList ++ rest.dropWhile (· ≠ '/')
          if expanded.isEmpty then "/" else String.ofList expanded
      | none => path
  | _ => path

def startsAtHome (path : String) : Bool :=
  path.toList.head? = some '~'

/-- The expansion of a relative path by its names, which requires the home directory to be known. -/
def expandNames (platform : Platform) (path : String) : Except PathFault String :=
  match (Disk.components path).filter fun name => name ≠ "" && name ≠ "." with
  | [] => .ok path
  | first :: rest =>
      if path.toList.head? = some '/' || !startsAtHome first then .ok path
      else do
        (checkPath first).mapError .nul
        let home := platform.expand first
        if startsAtHome home then throw .homeless
        pure ("/".intercalate (home :: rest))

end Platform

end ContractAudit
