import ContractAudit.Source.Location
import ContractAudit.Table
import ContractAudit.Text.Blank
import ContractAudit.Text.Digit
import ContractAudit.Text.Lines

/-!
# Suppressions

Findings can be silenced by code: everywhere, or on a line. A comment with the suppression directive
silences its codes on its own line and on the next one. The code `*` stands for every code.
-/

namespace ContractAudit

/-- The codes that are silenced. -/
structure Suppressions where
  /-- The codes silenced everywhere, without repetitions. -/
  everywhere : List String
  /-- The codes silenced on each line, without repetitions. -/
  onLine : Table Int (List String)

namespace Suppressions

def none : Suppressions :=
  ⟨[], .empty⟩

def anyCode : String := "*"

def addEverywhere (suppressions : Suppressions) (code : String) : Suppressions :=
  { suppressions with everywhere := addNew suppressions.everywhere code }

def addOnLine (suppressions : Suppressions) (line : Int) (code : String) : Suppressions :=
  let codes := (suppressions.onLine.get? line).getD []
  { suppressions with onLine := suppressions.onLine.insert line (addNew codes code) }

def size (suppressions : Suppressions) : Nat :=
  suppressions.onLine.values.foldr (fun codes count => codes.length + count)
    suppressions.everywhere.length

def silences (codes : List String) (code : String) : Bool :=
  codes.contains code || codes.contains anyCode

theorem silences_iff {codes : List String} {code : String} :
    silences codes code = true ↔ code ∈ codes ∨ anyCode ∈ codes := by
  simp [silences]

/-- Whether a code is silenced at a place. A finding without a place is silenced only by a code
silenced everywhere. -/
def isSuppressed (suppressions : Suppressions) (code : String) (location : Option Location) :
    Bool :=
  silences suppressions.everywhere code ||
    match location with
    | Option.none => false
    | some location => silences ((suppressions.onLine.get? location.line).getD []) code

def directive : String := "clarity-audit-suppress"

/-- Whether a character reads as a character of the directive, whatever its case. The dotless and
dotted forms of `i` and the long `s` count as the letters. -/
def reads (expected c : Char) : Bool :=
  c.toLower = expected ||
    (expected = 'i' && (c = '\u0131' || c = '\u0130')) || (expected = 's' && c = '\u017f')

/-- What follows a word at the start of a text, in whatever case it is written. -/
def afterWord? : List Char → List Char → Option (List Char)
  | [], text => some text
  | _ :: _, [] => Option.none
  | expected :: word, c :: text => if reads expected c then afterWord? word text else Option.none

def isCodeChar (c : Char) : Bool :=
  Text.isAlphanumeric c || c = '_' || c = '*' || c = '-'

def isGap (c : Char) : Bool :=
  c = ' ' || c = '\t'

/-- The codes at the start of a text: runs of code characters divided by spaces and tabs. -/
def leadingCodes (text : List Char) : List String :=
  let listed := text.takeWhile fun c => isCodeChar c || isGap c
  ((listed.splitOnP isGap).filter fun code => !code.isEmpty).map String.ofList

def codesAt? (text : List Char) : Option (List String) := do
  let comment := text.dropWhile (· = ';')
  if comment.length = text.length then failure
  let rest ← afterWord? directive.toList (comment.dropWhile Text.isBlank)
  let listed := rest.dropWhile Text.isBlank
  if listed.length = rest.length then failure
  match listed with
  | c :: _ => if isCodeChar c then some (leadingCodes listed) else failure
  | [] => failure

/-- The codes of the first directive in a line; without one there are none. -/
def codesIn : List Char → List String
  | [] => []
  | c :: rest => (codesAt? (c :: rest)).getD (codesIn rest)

def addDirectives (suppressions : Suppressions) (source : String) : Suppressions :=
  ((Text.lines source.toList).zipIdx 1).foldl (fun suppressions (line, number) =>
    (codesIn line).foldl (fun suppressions code =>
      (suppressions.addOnLine number code).addOnLine (number + 1) code) suppressions) suppressions

end Suppressions

end ContractAudit
