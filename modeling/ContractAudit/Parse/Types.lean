import ContractAudit.Parse.State
import ContractAudit.Syntax.TypeSpec

/-!
# Parsing declared types

A declared type is a word, a parenthesised form, or a tuple type in braces. A nested type always
stands after an opening bracket, so the number of unread tokens bounds the nesting.
-/

namespace ContractAudit.Parser

open Parse

def parenTypeField (nested : Parser TypeSpec) : Parser (String × TypeSpec) := do
  let _ ← advance
  let name ← expectName "tuple field name"
  let spec ← nested
  close "tuple field type"
  pure (name, spec)

def braceTypeField (nested : Parser TypeSpec) : Parser (String × TypeSpec) := do
  let name ← expectName "tuple field name"
  let _ ← expect .colon "Expected ':' after tuple field name"
  let spec ← nested
  pure (name, spec)

def typeParam (nested : Parser TypeSpec) : Parser TypeParam := do
  let kind := (← peek).kind
  if kind = .int || kind = .uint then
    let value ← integer (← advance).value
    pure (.size value)
  else
    let spec ← nested
    pure (.type spec)

def parenTypeAfter (nested : Parser TypeSpec) (start : Location) (head : String) :
    Parser TypeSpec := do
  if head = "tuple" then
    let fields ← repeatWhile (·.sees .leftParen) (parenTypeField nested)
    close "tuple type"
    pure (.tuple (← spanFrom start) fields)
  else
    let params ← repeatWhile State.inBody (typeParam nested)
    close s!"type '{head}'"
    pure (.named (← spanFrom start) head params)

def parenType (nested : Parser TypeSpec) : Parser TypeSpec := do
  let start := (← advance).location
  let head ← expectName "type name"
  parenTypeAfter nested start head

def braceType (nested : Parser TypeSpec) : Parser TypeSpec := do
  let start := (← advance).location
  let fields ← separated (braceTypeField nested)
  let _ ← expect .rightBrace "Expected '\x7d' after tuple type"
  pure (.tuple (← spanFrom start) fields)

/-- What stands where a type should. A token that can close the form around it is left unread. -/
def badType : Parser TypeSpec := do
  let token ← peek
  reportHere "Expected type"
  if token.kind ≠ .rightParen then
    let _ ← advance
  pure (.named (← spanFrom token.location) placeholder [])

def wordType (token : Token) : Parser TypeSpec := do
  let _ ← advance
  pure (.ofWord (← spanFrom token.location) token.value)

/-- A type, with a parser for the types nested in it. -/
def typeSpecWith (nested : Parser TypeSpec) : Parser TypeSpec := do
  let token ← peek
  match token.kind with
  | .identifier | .keyword => wordType token
  | .leftBrace => braceType nested
  | .leftParen => parenType nested
  | _ => badType

def typeSpecWithin : Nat → Parser TypeSpec
  | 0 => badType
  | levels + 1 => typeSpecWith (typeSpecWithin levels)

def typeSpec : Parser TypeSpec :=
  fun state => typeSpecWithin state.ahead.length state

end ContractAudit.Parser
