import ContractAudit.Source.Location
import ContractAudit.Text.Quoted

/-!
# Tokens

A token is a piece of contract text with its kind, the value it stands for and its location. Blanks
and comments have kinds of their own, so that a token list made elsewhere may carry them.
-/

namespace ContractAudit

/-- The kinds of token. -/
inductive TokenKind where
  | leftParen
  | rightParen
  | leftBrace
  | rightBrace
  | dot
  | comma
  | colon
  | identifier
  | keyword
  | uint
  | int
  | bool
  | stringAscii
  | stringUtf8
  | buffer
  | principal
  | endOfInput
  | comment
  | whitespace
deriving DecidableEq, Repr, Inhabited

namespace TokenKind

def all : List TokenKind :=
  [.leftParen, .rightParen, .leftBrace, .rightBrace, .dot, .comma, .colon, .identifier, .keyword,
   .uint, .int, .bool, .stringAscii, .stringUtf8, .buffer, .principal, .endOfInput, .comment,
   .whitespace]

def label : TokenKind → String
  | .leftParen => "LPAREN"
  | .rightParen => "RPAREN"
  | .leftBrace => "LBRACE"
  | .rightBrace => "RBRACE"
  | .dot => "DOT"
  | .comma => "COMMA"
  | .colon => "COLON"
  | .identifier => "IDENTIFIER"
  | .keyword => "KEYWORD"
  | .uint => "UINT"
  | .int => "INT"
  | .bool => "BOOL"
  | .stringAscii => "STRING_ASCII"
  | .stringUtf8 => "STRING_UTF8"
  | .buffer => "BUFFER"
  | .principal => "PRINCIPAL"
  | .endOfInput => "EOF"
  | .comment => "COMMENT"
  | .whitespace => "WHITESPACE"

def ofLabel? (label : String) : Option TokenKind :=
  all.find? fun kind => kind.label = label

def isLiteral : TokenKind → Bool
  | .uint | .int | .bool | .stringAscii | .stringUtf8 | .buffer | .principal => true
  | _ => false

/-- Whether a token of this kind may be a name: keywords are accepted as names too. -/
def isName : TokenKind → Bool
  | .identifier | .keyword => true
  | _ => false

/-- Whether a token of this kind separates others and means nothing. -/
def isGap : TokenKind → Bool
  | .comment | .whitespace => true
  | _ => false

end TokenKind

/-- A located piece of contract text. -/
structure Token where
  kind : TokenKind
  /-- What the token stands for: digits without the mark of an unsigned number, text without quotes
  and escapes, and so on. -/
  value : String
  raw : String
  location : Location
deriving DecidableEq, Repr, Inhabited

namespace Token

/-- The location just after a token. A token that spans lines ends where it starts. -/
def finish (token : Token) : Location :=
  if token.raw.toList.contains '\n' then token.location
  else token.location.right token.raw.length

def render (token : Token) : String :=
  s!"{token.kind.label}({Text.quoted token.raw}) at {token.location.render}"

end Token

end ContractAudit
