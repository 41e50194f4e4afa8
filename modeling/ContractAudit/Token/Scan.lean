import ContractAudit.Text.Blank
import ContractAudit.Text.Digit
import ContractAudit.Token.Basic
import ContractAudit.Token.Vocabulary

/-!
# Scanning contract text

Contract text is cut into pieces: blanks, comments, tokens, and characters that start no token.
Every character belongs to exactly one piece, so no text is refused. Each piece is the longest of
its class that starts where the piece before it ends.
-/

namespace ContractAudit

/-- What a piece of contract text is. -/
inductive PieceKind where
  /-- One blank character. -/
  | blank
  /-- A comment, up to but not including the end of its line. -/
  | comment
  /-- One character that starts no token. -/
  | unknown
  /-- A token with the value it stands for. -/
  | token (kind : TokenKind) (value : List Char)
deriving DecidableEq, Repr

/-- A located piece of contract text. -/
structure Piece where
  kind : PieceKind
  raw : List Char
  location : Location
deriving DecidableEq, Repr

namespace Scan

/-- The symbols that names may hold beside letters and digits. -/
def isSymbol (c : Char) : Bool :=
  c ∈ ['-', '_', '!', '?', '+', '<', '>', '=', '/', '%', '*']

def isNameStart (c : Char) : Bool :=
  Text.isLetter c || isSymbol c

/-- The characters that continue a name. -/
def isNameChar (c : Char) : Bool :=
  Text.isAlphanumeric c || isSymbol c

def isHexDigit (c : Char) : Bool :=
  c.isDigit || ('a' ≤ c && c ≤ 'f') || ('A' ≤ c && c ≤ 'F')

def isPrincipalChar (c : Char) : Bool :=
  !(Text.isBlank c || c = '(' || c = ')')

/-- The kind of the token that a punctuation character forms by itself. -/
def punctuation? : Char → Option TokenKind
  | '(' => some .leftParen
  | ')' => some .rightParen
  | '{' => some .leftBrace
  | '}' => some .rightBrace
  | '.' => some .dot
  | ',' => some .comma
  | ':' => some .colon
  | _ => none

/-- The character that an escape stands for: an unknown escape stands for its own character. -/
def unescape : Char → Char
  | 'n' => '\n'
  | 't' => '\t'
  | 'r' => '\r'
  | c => c

/-- The value of a string literal from its opening quote on, with the number of characters that it
takes up after that quote. A literal that is never closed runs to the end of the text. -/
def scanString : List Char → List Char × Nat
  | [] => ([], 0)
  | '"' :: _ => ([], 1)
  | '\\' :: c :: rest => ((unescape c :: (scanString rest).1), (scanString rest).2 + 2)
  | c :: rest => ((c :: (scanString rest).1), (scanString rest).2 + 1)

def wordKind (word : List Char) : TokenKind :=
  let text := String.ofList word
  if text = "true" || text = "false" then .bool
  else if Vocabulary.keywords.contains text then .keyword
  else .identifier

def startsWithDigit (text : List Char) : Bool :=
  text.head?.any Text.isDigit

/-- The piece that starts with a character, with the number of characters it takes up after that
one. -/
def scan (c : Char) (rest : List Char) : PieceKind × Nat :=
  if Text.isBlank c then (.blank, 0)
  else if c = ';' then (.comment, (rest.takeWhile (· ≠ '\n')).length)
  else if let some kind := punctuation? c then (.token kind [c], 0)
  else if c = '"' then
    let (value, length) := scanString rest
    (.token .stringAscii value, length)
  else if c = 'u' && rest.head? = some '"' then
    let (value, length) := scanString rest.tail
    (.token .stringUtf8 value, length + 1)
  else if c = 'u' && startsWithDigit rest then
    let digits := rest.takeWhile Text.isDigit
    (.token .uint digits, digits.length)
  else if c = '0' && (rest.head? = some 'x' || rest.head? = some 'X') then
    let digits := rest.tail.takeWhile isHexDigit
    (.token .buffer (digits.map Char.toLower), digits.length + 1)
  else if Text.isDigit c then
    let digits := rest.takeWhile Text.isDigit
    (.token .int (c :: digits), digits.length)
  else if c = '-' && startsWithDigit rest then
    let digits := rest.takeWhile Text.isDigit
    (.token .int ('-' :: digits), digits.length)
  else if c = '\'' then
    let address := rest.takeWhile isPrincipalChar
    (.token .principal address, address.length)
  else if isNameStart c then
    let others := rest.takeWhile isNameChar
    (.token (wordKind (c :: others)) (c :: others), others.length)
  else (.unknown, 0)

/-- The pieces of a text from a location on; the first `covered` characters belong to the piece
before. -/
def piecesFrom (location : Location) : Nat → List Char → List Piece
  | _, [] => []
  | covered + 1, c :: rest => piecesFrom (location.next c) covered rest
  | 0, c :: rest =>
      let (kind, length) := scan c rest
      ⟨kind, c :: rest.take length, location⟩ :: piecesFrom (location.next c) length rest

end Scan

def Piece.token? (piece : Piece) : Option Token :=
  match piece.kind with
  | .token kind value =>
      some ⟨kind, String.ofList value, String.ofList piece.raw, piece.location⟩
  | _ => none

def pieces (source : String) : List Piece :=
  Scan.piecesFrom Location.start 0 source.toList

/-- The tokens of contract text, in order, closed by the end of input. -/
def tokenize (source : String) : List Token :=
  (pieces source).filterMap Piece.token? ++
    [⟨.endOfInput, "", "", Location.start.after source.toList⟩]

/-- The number of characters of contract text that start no token. -/
def unknownCount (source : String) : Nat :=
  (pieces source).countP fun piece => piece.kind = .unknown

end ContractAudit
