import ContractAudit.Regex.Basic
import ContractAudit.Regex.Problem

/-!
# Reading regular expressions: the reader

A written expression is read piece by piece, where a backslash and the code point after it are one
piece. Beside what is left to read, the reader keeps the groups that it has met and the flags of the
whole expression. A backslash at the very end is refused as soon as the piece before it is taken.
-/

namespace ContractAudit.Regex

open Text (CodePoint LooseText)

/-- A piece of an expression. -/
inductive Piece where
  | plain (c : CodePoint)
  | escaped (c : CodePoint)
deriving DecidableEq, Repr

namespace Piece

def ofChar (c : Char) : Piece := .plain (.char c)

def text : Piece → LooseText
  | .plain c => ⟨[c]⟩
  | .escaped c => ⟨[.char '\\', c]⟩

def length (piece : Piece) : Nat :=
  piece.text.points.length

def char? : Piece → Option Char
  | .plain c => c.char?
  | .escaped _ => none

end Piece

/-- The pieces of an expression, and whether a lone backslash follows them. -/
def pieces : List CodePoint → List Piece × Bool
  | [] => ([], false)
  | [c] => if c = .char '\\' then ([], true) else ([.plain c], false)
  | c :: d :: rest =>
      if c = .char '\\' then
        let (others, dangling) := pieces rest
        (.escaped d :: others, dangling)
      else
        let (others, dangling) := pieces (d :: rest)
        (.plain c :: others, dangling)

/-- The flags that can be written in an expression. -/
inductive Flag where
  | ignoreCase
  | locale
  | multiline
  | dotAll
  | verbose
  | ascii
  | template
  | unicode
deriving DecidableEq, Repr

namespace Flag

def ofChar? : Char → Option Flag
  | 'i' => some .ignoreCase
  | 'L' => some .locale
  | 'm' => some .multiline
  | 's' => some .dotAll
  | 'x' => some .verbose
  | 'a' => some .ascii
  | 't' => some .template
  | 'u' => some .unicode
  | _ => none

def ofPiece? (piece : Piece) : Option Flag :=
  piece.char?.bind ofChar?

/-- Whether a flag says which classes of characters are meant. -/
def isType (flag : Flag) : Bool :=
  flag = .ascii || flag = .locale || flag = .unicode

/-- Whether a flag can only be given for the whole expression. -/
def isGlobal (flag : Flag) : Bool :=
  flag = .template

end Flag

/-- The rules that a part of an expression is read under. -/
structure Scope where
  ignoreCase : Bool := false
  /-- Whether `^` and `$` hold at every line. -/
  multiline : Bool := false
  /-- Whether `.` takes line feeds. -/
  dotAll : Bool := false
  /-- Whether blanks and comments are left out. -/
  verbose : Bool := false
  /-- Whether classes and case are those of ASCII. -/
  ascii : Bool := false
deriving DecidableEq, Repr

namespace Scope

def turn (scope : Scope) (on off : List Flag) : Scope :=
  let set := fun (flag : Flag) (before : Bool) =>
    (before || on.contains flag) && !off.contains flag
  { ignoreCase := set .ignoreCase scope.ignoreCase
    multiline := set .multiline scope.multiline
    dotAll := set .dotAll scope.dotAll
    verbose := set .verbose scope.verbose
    ascii := on.contains .ascii || (scope.ascii && !on.contains .unicode) }

def rule (scope : Scope) : CaseRule :=
  if !scope.ignoreCase then .exact else if scope.ascii then .ascii else .full

end Scope

/-- What a reader works on. -/
structure Scan where
  /-- The code points of characters by their names. -/
  characters : String → Option Nat
  rest : List Piece
  position : Nat
  /-- Whether a lone backslash follows the pieces. -/
  dangling : Bool
  /-- The widths of the groups met so far, in order; an open group has none yet. -/
  groups : List (Option Width) := []
  /-- The names of groups, with their numbers. -/
  names : List (LooseText × Nat) := []
  /-- The number of the first group inside the outermost look behind that is open. -/
  behindFrom : Option Nat := none
  /-- The numbers of groups in conditions, each with the place where it first stands. -/
  conditions : List (Nat × Nat) := []
  flags : List Flag := []

abbrev Reader := StateT Scan (Except Error)

namespace Reader

def refuseAt {α : Type} (problem : Problem) (position : Nat) : Reader α :=
  throw (.refused ⟨problem, some position⟩)

/-- Refuses an expression for a problem that stands some code points back. -/
def refuse {α : Type} (problem : Problem) (back : Nat) : Reader α := do
  refuseAt problem ((← get).position - back)

def position : Reader Nat := do
  return (← get).position

def checkEnd : Reader Unit := do
  let scan ← get
  if scan.rest.isEmpty && scan.dangling then refuse .danglingEscape 0

def peek : Reader (Option Piece) := do
  return (← get).rest.head?

def take : Reader (Option Piece) := do
  let scan ← get
  match scan.rest with
  | [] => return none
  | piece :: rest =>
      set { scan with rest := rest, position := scan.position + piece.length }
      checkEnd
      return some piece

def accept (c : Char) : Reader Bool := do
  if (← peek) = some (.ofChar c) then
    let _ ← take
    return true
  else return false

/-- Takes characters of a class, at most a number of them. -/
def takeClass (isMember : Char → Bool) : Nat → Reader (List Char)
  | 0 => return []
  | bound + 1 => do
      match (← peek).bind Piece.char? with
      | some c =>
          if isMember c then
            let _ ← take
            return c :: (← takeClass isMember bound)
          else return []
      | none => return []

def takeAll (isMember : Char → Bool) : Reader (List Char) := do
  takeClass isMember (← get).rest.length

/-- Takes the code points of a name after those before, up to a terminator, which is taken too. -/
def takeName (kind : String) (terminator : Char) : Nat → List CodePoint → Reader LooseText
  | 0, before => return ⟨before⟩
  | bound + 1, before => do
      match ← take with
      | none =>
          if before.isEmpty then refuse (.missingName kind) 0
          else refuse (.openName terminator) before.length
      | some piece =>
          if piece ≠ .ofChar terminator then
            takeName kind terminator bound (before ++ piece.text.points)
          else if before.isEmpty then refuse (.missingName kind) 1
          else return ⟨before⟩

def takeUntil (kind : String) (terminator : Char) : Reader LooseText := do
  takeName kind terminator ((← get).rest.length + 1) []

def groupWidth? (number : Nat) : Reader (Option Width) := do
  if number = 0 then return none
  return ((← get).groups[number - 1]?).join

/-- Refuses a reference inside a look behind to a group that is open or stands in the look itself.
-/
def checkBehind (number : Nat) : Reader Unit := do
  match (← get).behindFrom with
  | none => return
  | some first =>
      if (← groupWidth? number).isNone then refuse .openReference 0
      if first ≤ number then refuse .innerReference 0

/-- A reference to a group that ends some code points before the next piece. -/
def refer (scope : Scope) (number back : Nat) : Reader Regex := do
  if (← groupWidth? number).isNone then refuse .openReference back
  checkBehind number
  return .reference scope.rule number

def openGroup (name : Option LooseText) : Reader Nat := do
  let scan ← get
  let number := scan.groups.length + 1
  let groups := scan.groups ++ [none]
  match name with
  | none => set { scan with groups := groups }
  | some name =>
      match scan.names.lookup name with
      | some earlier => refuse (.repeatedName name number earlier) (name.points.length + 1)
      | none => set { scan with groups := groups, names := scan.names ++ [(name, number)] }
  return number

def closeGroup (number : Nat) (width : Width) : Reader Unit :=
  modify fun scan => { scan with groups := scan.groups.set (number - 1) (some width) }

end Reader

end ContractAudit.Regex
