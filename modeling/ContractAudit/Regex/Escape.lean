import ContractAudit.Regex.Reader

/-!
# Reading regular expressions: escapes and sets

A backslash gives the next code point another meaning: a class of characters, an anchor, a character
by its number or name, or a reference to a group. In a set between brackets only classes and
characters can be escaped.
-/

namespace ContractAudit.Regex

open Text (CodePoint LooseText)

def escapeText (body : List Char) : LooseText :=
  ⟨('\\' :: body).map .char⟩

def valueOf (base : Nat) (digits : List Char) : Nat :=
  digits.foldl (fun value c => base * value + (Text.hexValue? c).getD 0) 0

def isOctal (c : Char) : Bool :=
  '0' ≤ c && c ≤ '7'

def maxOctal : Nat := 255

/-- The classes that an escape names. -/
def escapedClass? (scope : Scope) : Char → Option CharItem
  | 'w' => some (.named .word scope.ascii false)
  | 'W' => some (.named .word scope.ascii true)
  | 'd' => some (.named .digit scope.ascii false)
  | 'D' => some (.named .digit scope.ascii true)
  | 's' => some (.named .blank scope.ascii false)
  | 'S' => some (.named .blank scope.ascii true)
  | _ => none

def escapedAnchor? (scope : Scope) : Char → Option Anchor
  | 'A' => some .start
  | 'Z' => some .strictFinish
  | 'b' => some (.boundary scope.ascii)
  | 'B' => some (.noBoundary scope.ascii)
  | _ => none

def escapedControl? : Char → Option Nat
  | 'a' => some 7
  | 'b' => some 8
  | 't' => some 9
  | 'n' => some 10
  | 'v' => some 11
  | 'f' => some 12
  | 'r' => some 13
  | _ => none

namespace Reader

/-- Reads the digits of an escape with a letter, exactly so many of them. -/
def readHex (letter : Char) (count : Nat) : Reader Nat := do
  let digits ← takeClass (fun c => (Text.hexValue? c).isSome) count
  let escape := escapeText (letter :: digits)
  if digits.length ≠ count then refuse (.incompleteEscape escape) escape.points.length
  let value := valueOf 16 digits
  if 0x10ffff < value then refuse (.badEscape escape) escape.points.length
  return value

def readCharacterName : Reader Nat := do
  if !(← accept '\x7b') then refuse .noCharacterName 0
  let name ← takeUntil "character name" '\x7d'
  let some text := name.toString? | refuse (.badEscape (escapeText ['N'])) 2
  match (← get).characters text with
  | some code => return code
  | none => refuse (.unknownCharacter name) (name.points.length + 4)

/-- Reads the code point that an escape gives by a number in hexadecimal digits or by a name, if it
is such an escape. -/
def readNumbered? : Char → Reader (Option Nat)
  | 'x' => some <$> readHex 'x' 2
  | 'u' => some <$> readHex 'u' 4
  | 'U' => some <$> readHex 'U' 8
  | 'N' => some <$> readCharacterName
  | _ => return none

/-- The code point that an escape stands for if it has no other meaning. A letter or digit without a
meaning is refused. -/
def readSelf (c : CodePoint) : Reader Nat := do
  let isReserved := c.char?.any Char.isAlphanum
  if isReserved then refuse (.badEscape ⟨[.char '\\', c]⟩) 2
  return c.toNat

def readOctal (digit : Char) : Reader Nat := do
  let digits := digit :: (← takeClass isOctal 2)
  let value := valueOf 8 digits
  if maxOctal < value then
    let escape := escapeText digits
    refuse (.largeOctal escape) escape.points.length
  return value

/-- Reads an escape in a set: a code point, which can bound a range, or a class. -/
def readSetEscape (scope : Scope) (c : CodePoint) : Reader (Nat ⊕ CharItem) := do
  let some letter := c.char? | return .inl c.toNat
  if let some code := escapedControl? letter then return .inl code
  if let some item := escapedClass? scope letter then return .inr item
  if let some code ← readNumbered? letter then return .inl code
  if isOctal letter then return .inl (← readOctal letter)
  return .inl (← readSelf c)

/-- Reads a reference to a group, or an octal escape of three digits, from its first digit on. -/
def readReference (scope : Scope) (digit : Char) : Reader Regex := do
  let second ← takeClass Char.isDigit 1
  let digits := digit :: second
  let third ←
    if second.length = 1 && digits.all isOctal then takeClass isOctal 1 else pure []
  let escape := escapeText (digits ++ third)
  if !third.isEmpty then
    let value := valueOf 8 (digits ++ third)
    if maxOctal < value then refuse (.largeOctal escape) escape.points.length
    return .one (.single scope.rule value)
  let number := valueOf 10 digits
  if (← get).groups.length < number then
    refuse (.groupReference number) (escape.points.length - 1)
  refer scope number escape.points.length

/-- Reads an entry of a set that starts with a piece. -/
def readSetItem (scope : Scope) : Piece → Reader (Nat ⊕ CharItem)
  | .plain c => return .inl c.toNat
  | .escaped c => readSetEscape scope c

def soleItem : Nat ⊕ CharItem → CharItem
  | .inl code => .range code code
  | .inr item => item

def rangeItem? : Nat ⊕ CharItem → Nat ⊕ CharItem → Option CharItem
  | .inl low, .inl high => if low ≤ high then some (.range low high) else none
  | _, _ => none

/-- Reads the entries of a set in brackets that starts at a place, through its closing bracket. A
closing bracket that comes first is an entry. -/
def readItems (scope : Scope) (start : Nat) : Nat → List CharItem → Reader (List CharItem)
  | 0, _ => refuseAt .openSet start
  | bound + 1, items => do
      let some piece ← take | refuseAt .openSet start
      if piece = .ofChar ']' && !items.isEmpty then return items
      let item ← readSetItem scope piece
      if !(← accept '-') then
        readItems scope start bound (items ++ [soleItem item])
      else
        let some other ← take | refuseAt .openSet start
        if other = .ofChar ']' then return items ++ [soleItem item, .range 0x2d 0x2d]
        let upper ← readSetItem scope other
        match rangeItem? item upper with
        | some range => readItems scope start bound (items ++ [range])
        | none => refuse (.badRange piece.text other.text) (piece.length + 1 + other.length)

def readSet (scope : Scope) (start : Nat) : Reader CharSet := do
  let negated ← accept '^'
  let items ← readItems scope start ((← get).rest.length + 1) []
  return ⟨negated, scope.rule, items⟩

end Reader

end ContractAudit.Regex
