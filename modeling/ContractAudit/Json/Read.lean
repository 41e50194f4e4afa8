import ContractAudit.Json.Basic
import ContractAudit.Table
import ContractAudit.Text.Numeral

/-!
# Reading JSON

A text is read as one JSON value, with nothing but blanks around it. Beside the standard format the
three names `NaN`, `Infinity` and `-Infinity` are numbers. A fault is reported at the character
where the reader could not go on.
-/

namespace ContractAudit.Json

/-- Why a text is not JSON. -/
inductive Problem where
  | byteOrderMark
  | expectedValue
  | expectedName
  | expectedColon
  | expectedComma
  | extraData
  | unterminatedString
  | controlCharacter
  | badEscape
  | badUnicodeEscape
deriving DecidableEq, Repr

def Problem.text : Problem → String
  | .byteOrderMark => "Unexpected UTF-8 BOM (decode using utf-8-sig)"
  | .expectedValue => "Expecting value"
  | .expectedName => "Expecting property name enclosed in double quotes"
  | .expectedColon => "Expecting ':' delimiter"
  | .expectedComma => "Expecting ',' delimiter"
  | .extraData => "Extra data"
  | .unterminatedString => "Unterminated string starting at"
  | .controlCharacter => "Invalid control character at"
  | .badEscape => "Invalid \\escape"
  | .badUnicodeEscape => "Invalid \\uXXXX escape"

/-- A text that cannot be read. -/
inductive ReadError where
  /-- The text is not JSON, because of a problem at a character. -/
  | notJson (problem : Problem) (line column offset : Nat)
  /-- An integer of the text has too many digits. -/
  | integer (error : Text.Numeral.Error)
deriving DecidableEq, Repr

def ReadError.message : ReadError → String
  | .notJson problem line column offset =>
      s!"{problem.text}: line {line} column {column} (char {offset})"
  | .integer error => error.message

/-- A fault found while reading, before its line is known. -/
inductive Fault where
  | problem (problem : Problem) (offset : Nat)
  | integer (error : Text.Numeral.Error)

/-- The unread part of a text with its offset. -/
structure Cursor where
  offset : Nat
  rest : List Char

def Cursor.skip (cursor : Cursor) (count : Nat) : Cursor :=
  ⟨cursor.offset + count, cursor.rest.drop count⟩

/-- The cursor after the blanks that JSON allows between tokens. -/
def Cursor.skipBlanks (cursor : Cursor) : Cursor :=
  cursor.skip (cursor.rest.takeWhile fun c => c ∈ [' ', '\t', '\n', '\r']).length

def unit? (a b c d : Char) : Option Nat := do
  let a ← Text.hexValue? a
  let b ← Text.hexValue? b
  let c ← Text.hexValue? c
  let d ← Text.hexValue? d
  pure (((a * 16 + b) * 16 + c) * 16 + d)

def escaped? : Char → Option Char
  | '"' => some '"'
  | '\\' => some '\\'
  | '/' => some '/'
  | 'b' => some '\x08'
  | 'f' => some '\x0c'
  | 'n' => some '\n'
  | 'r' => some '\r'
  | 't' => some '\t'
  | _ => none

/-- The units of a string from its opening quote on, which stands at `start`; those read before are
given in reverse order. -/
def readUnits (start offset : Nat) (units : List Nat) : List Char → Except Fault (List Nat × Cursor)
  | [] => .error (.problem .unterminatedString start)
  | '"' :: rest => .ok (units.reverse, ⟨offset + 1, rest⟩)
  | ['\\'] => .error (.problem .unterminatedString start)
  | '\\' :: 'u' :: a :: b :: c :: d :: rest =>
      match unit? a b c d with
      | some unit =>
          if rest.isEmpty then .error (.problem .badUnicodeEscape (offset + 1))
          else readUnits start (offset + 6) (unit :: units) rest
      | none => .error (.problem .badUnicodeEscape (offset + 1))
  | '\\' :: c :: rest =>
      if c = 'u' then .error (.problem .badUnicodeEscape (offset + 1))
      else match escaped? c with
        | some c => readUnits start (offset + 2) (c.toNat :: units) rest
        | none => .error (.problem .badEscape offset)
  | c :: rest =>
      if c.toNat < 0x20 then .error (.problem .controlCharacter offset)
      else readUnits start (offset + 1) (c.toNat :: units) rest

def isHighHalf (unit : Nat) : Bool :=
  0xd800 ≤ unit && unit < 0xdc00

def isLowHalf (unit : Nat) : Bool :=
  0xdc00 ≤ unit && unit < 0xe000

/-- The code points of units, with those before them in reverse order: two halves of a surrogate
pair are one character. -/
def joinUnits (before : List Text.CodePoint) : List Nat → List Text.CodePoint
  | [] => before.reverse
  | [unit] => (.ofNat unit :: before).reverse
  | high :: low :: rest =>
      if isHighHalf high && isLowHalf low then
        joinUnits (.ofNat (0x10000 + (high - 0xd800) * 0x400 + (low - 0xdc00)) :: before) rest
      else joinUnits (.ofNat high :: before) (low :: rest)

/-- Reads a string whose opening quote has just been passed. -/
def readString (cursor : Cursor) : Except Fault (Text.LooseText × Cursor) := do
  let (units, cursor) ← readUnits (cursor.offset - 1) cursor.offset [] cursor.rest
  pure (⟨joinUnits [] units⟩, cursor)

def digitRun (text : List Char) : Nat :=
  (text.takeWhile Char.isDigit).length

def fractionLength (text : List Char) : Nat :=
  match text with
  | '.' :: rest => if digitRun rest = 0 then 0 else digitRun rest + 1
  | _ => 0

def exponentLength (text : List Char) : Nat :=
  match text with
  | mark :: rest =>
      if mark = 'e' || mark = 'E' then
        let sign := if rest.head? = some '+' || rest.head? = some '-' then 1 else 0
        let digits := digitRun (rest.drop sign)
        if digits = 0 then 0 else 1 + sign + digits
      else 0
  | [] => 0

def digitsValue (digits : List Char) : Nat :=
  Text.Numeral.value (digits.filterMap Text.decimalValue?)

def exponentValue (text : List Char) : Int :=
  match text.drop 1 with
  | '-' :: digits => -(digitsValue digits : Int)
  | '+' :: digits => digitsValue digits
  | digits => digitsValue digits

/-- Splits off a minus; the first component says whether there is one. -/
def splitMinus : List Char → Bool × List Char
  | '-' :: rest => (true, rest)
  | rest => (false, rest)

def readNumber (cursor : Cursor) : Except Fault (Json × Cursor) :=
  let (negative, body) := splitMinus cursor.rest
  let sign := if negative then 1 else 0
  let whole := if body.head? = some '0' then 1 else digitRun body
  if whole = 0 then .error (.problem .expectedValue cursor.offset)
  else
    let afterWhole := body.drop whole
    let fraction := fractionLength afterWhole
    let exponent := exponentLength (afterWhole.drop fraction)
    let next := cursor.skip (sign + whole + fraction + exponent)
    if fraction = 0 && exponent = 0 then
      match Text.Numeral.read (String.ofList (cursor.rest.take (sign + whole))) with
      | .ok value => .ok (.int value, next)
      | .error error => .error (.integer error)
    else
      let digits := body.take whole ++ (afterWhole.take fraction).drop 1
      let power := exponentValue ((afterWhole.drop fraction).take exponent)
      let value :=
        Decimal.Binary64.ofDecimal negative (digitsValue digits) (power - (fraction - 1 : Nat))
      .ok (.real value, next)

def wordValues : List (List Char × Json) :=
  [("null".toList, .null), ("true".toList, .bool true), ("false".toList, .bool false),
   ("NaN".toList, .real .notANumber), ("Infinity".toList, .real (.infinite false)),
   ("-Infinity".toList, .real (.infinite true))]

/-- Reads a value that is neither a string nor a container. -/
def readScalar (cursor : Cursor) : Except Fault (Json × Cursor) :=
  match wordValues.find? fun word => word.1.isPrefixOf cursor.rest with
  | some (word, value) => .ok (value, cursor.skip word.length)
  | none => readNumber cursor

mutual

/-- Reads the value at the cursor, through at most `bound` steps. -/
def readValue (bound : Nat) (cursor : Cursor) : Except Fault (Json × Cursor) :=
  match bound with
  | 0 => .error (.problem .expectedValue cursor.offset)
  | bound + 1 =>
      match cursor.rest with
      | '"' :: _ => do
          let (value, cursor) ← readString (cursor.skip 1)
          pure (.text value, cursor)
      | '[' :: _ =>
          let inner := (cursor.skip 1).skipBlanks
          if inner.rest.head? = some ']' then .ok (.array [], inner.skip 1)
          else readItems bound [] inner
      | '\x7b' :: _ =>
          let inner := (cursor.skip 1).skipBlanks
          if inner.rest.head? = some '\x7d' then .ok (.record [], inner.skip 1)
          else readFields bound [] inner
      | _ => readScalar cursor

/-- Reads the items of an array from one of them on; those before are given in reverse order. -/
def readItems (bound : Nat) (before : List Json) (cursor : Cursor) :
    Except Fault (Json × Cursor) :=
  match bound with
  | 0 => .error (.problem .expectedValue cursor.offset)
  | bound + 1 => do
      let (item, cursor) ← readValue bound cursor
      let cursor := cursor.skipBlanks
      match cursor.rest with
      | ']' :: _ => pure (.array (item :: before).reverse, cursor.skip 1)
      | ',' :: _ => readItems bound (item :: before) (cursor.skip 1).skipBlanks
      | _ => throw (.problem .expectedComma cursor.offset)

/-- Reads the fields of an object from one of them on, after those before. -/
def readFields (bound : Nat) (before : List (Text.LooseText × Json)) (cursor : Cursor) :
    Except Fault (Json × Cursor) :=
  match bound with
  | 0 => .error (.problem .expectedName cursor.offset)
  | bound + 1 => do
      if cursor.rest.head? ≠ some '"' then
        throw (.problem .expectedName cursor.offset)
      let (name, cursor) ← readString (cursor.skip 1)
      let cursor := cursor.skipBlanks
      if cursor.rest.head? ≠ some ':' then
        throw (.problem .expectedColon cursor.offset)
      let (value, cursor) ← readValue bound (cursor.skip 1).skipBlanks
      let fields := Table.insertEntry name value before
      let cursor := cursor.skipBlanks
      match cursor.rest with
      | '\x7d' :: _ => pure (.record fields, cursor.skip 1)
      | ',' :: _ => readFields bound fields (cursor.skip 1).skipBlanks
      | _ => throw (.problem .expectedComma cursor.offset)

end

/-- Reads a text that holds one value. Every two steps pass at least one character. -/
def readText (text : List Char) : Except Fault Json := do
  if text.head? = some '\ufeff' then
    throw (.problem .byteOrderMark 0)
  let (value, cursor) ← readValue (2 * text.length + 2) (Cursor.mk 0 text).skipBlanks
  let cursor := cursor.skipBlanks
  if !cursor.rest.isEmpty then
    throw (.problem .extraData cursor.offset)
  pure value

/-- A fault with the line and column of its character. -/
def Fault.located (text : List Char) : Fault → ReadError
  | .problem cause offset =>
      let before := text.take offset
      let column := (before.reverse.takeWhile (· ≠ '\n')).length + 1
      .notJson cause (before.count '\n' + 1) column offset
  | .integer error => .integer error

def read (text : String) : Except ReadError Json :=
  match readText text.toList with
  | .ok value => .ok value
  | .error fault => .error (fault.located text.toList)

end ContractAudit.Json
