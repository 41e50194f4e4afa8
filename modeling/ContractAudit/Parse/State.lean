import ContractAudit.Diagnostic
import ContractAudit.Syntax.Expr
import ContractAudit.Text.Numeral
import ContractAudit.Token.Basic
import ContractAudit.Token.Vocabulary

/-!
# Parsers

A parser reads tokens, numbers the nodes it makes and records errors while it goes on. It ends in
one of three ways: with a value; interrupted, because a definition starts where an expression
should, in which case the tokens from that definition on are unread again; or failed, because a
numeral denotes no integer.
-/

namespace ContractAudit

namespace Parse

/-- The name of what could not be read. -/
def placeholder : String := "<error>"

/-- A place in a token list that holds an end of input, with what has been made so far. -/
structure State where
  /-- The token read last, or the first token if none has been read. -/
  previous : Token
  /-- The tokens not yet read, up to the first end of input. -/
  ahead : List Token
  live : ∀ token ∈ ahead, token.kind ≠ .endOfInput
  /-- The first end of input. -/
  finish : Token
  finish_kind : finish.kind = .endOfInput
  /-- The tokens that the list holds behind the first end of input. -/
  beyond : List Token
  nextId : Nat
  errors : List Diagnostic

namespace State

/-- All tokens of the list that are not yet read. -/
def unread (state : State) : List Token :=
  state.ahead ++ state.finish :: state.beyond

/-- The unread token at an index, or the last one if there are not so many. -/
def peek (state : State) (index : Nat) : Token :=
  (state.unread.drop index).headD (state.unread.getLastD state.finish)

def current (state : State) : Token :=
  state.peek 0

def second (state : State) : Token :=
  state.peek 1

def atEnd (state : State) : Bool :=
  state.current.kind = .endOfInput

def sees (state : State) (kind : TokenKind) : Bool :=
  state.current.kind = kind

/-- Whether something stands before the closing parenthesis of the form being read. -/
def inBody (state : State) : Bool :=
  !state.sees .rightParen && !state.atEnd

/-- The state after the tokens before some others, with the token read last. -/
def goTo (state : State) (previous : Token) (rest : List Token) : State :=
  { state with
    previous := previous
    ahead := state.ahead.drop (state.unread.length - rest.length)
    live := fun token htoken => state.live token (List.mem_of_mem_drop htoken) }

/-- The state after the next token, unless that is an end of input. -/
def advance (state : State) : State :=
  if state.atEnd then state else state.goTo state.current (state.unread.drop 1)

def report (state : State) (code : Code) (message : String) (location : Location) : State :=
  { state with errors := state.errors ++ [.error .parse code message location] }

def reportHere (state : State) (message : String) : State :=
  let found :=
    if state.current.kind = .endOfInput then "end of input" else Text.quoted state.current.raw
  state.report .parseError s!"{message}, found {found}" state.current.location

end State

/-- How a parser ends. -/
inductive Step (α : Type) where
  | done (value : α) (state : State)
  | interrupted (state : State)
  | failed (error : Text.Numeral.Error)

end Parse

def Parser (α : Type) : Type :=
  Parse.State → Parse.Step α

namespace Parser

open Parse

protected def pure {α : Type} (value : α) : Parser α :=
  fun state => .done value state

protected def bind {α β : Type} (first : Parser α) (next : α → Parser β) : Parser β :=
  fun state =>
    match first state with
    | .done value state => next value state
    | .interrupted state => .interrupted state
    | .failed error => .failed error

instance : Monad Parser where
  pure := Parser.pure
  bind := Parser.bind

def ask {α : Type} (question : State → α) : Parser α :=
  fun state => .done (question state) state

def change (update : State → State) : Parser Unit :=
  fun state => .done () (update state)

def peek : Parser Token :=
  ask State.current

/-- Reads the next token; the end of input is never passed. -/
def advance : Parser Token :=
  fun state => .done state.current state.advance

def report (code : Code) (message : String) (location : Location) : Parser Unit :=
  change fun state => state.report code message location

def reportHere (message : String) : Parser Unit :=
  change fun state => state.reportHere message

/-- The end of the parse at a numeral that denotes no integer. -/
def fail {α : Type} (error : Text.Numeral.Error) : Parser α :=
  fun _ => .failed error

def integer (text : String) : Parser Int :=
  match Text.Numeral.read text with
  | .ok value => pure value
  | .error error => fail error

/-- Reads a token of a kind, or records an error and reads nothing. -/
def expect (kind : TokenKind) (message : String) : Parser Bool := do
  if ← ask (·.sees kind) then
    let _ ← advance
    pure true
  else
    reportHere message
    pure false

/-- Reads a name, or records an error and stands in a placeholder. -/
def expectName (what : String) : Parser String := do
  if (← peek).kind.isName then
    pure (← advance).value
  else
    reportHere s!"Expected {what}"
    pure placeholder

/-- Reads the parenthesis that closes a form, or records that it is missing. -/
def close (what : String) : Parser Unit := do
  if ← ask (·.sees .rightParen) then
    let _ ← advance
    pure ()
  else if ← ask State.atEnd then
    report .unterminatedForm s!"Unexpected end of input: expected ')' to close {what}"
      (← peek).location
  else
    reportHere s!"Expected ')' after {what}"

/-- The span from a location to the end of the token read last. -/
def spanFrom (start : Location) : Parser Span :=
  ask fun state => ⟨start, state.previous.finish⟩

def newId : Parser Nat :=
  fun state => .done state.nextId { state with nextId := state.nextId + 1 }

/-- The place and number of a new node that starts at a location and ends here. -/
def infoFrom (start : Location) : Parser NodeInfo := do
  pure ⟨← spanFrom start, ← newId⟩

/-- The place and number of a new node that stands at a location and takes up no text. -/
def infoAt (location : Location) : Parser NodeInfo := do
  pure ⟨.point location, ← newId⟩

/-- Runs a parser as long as a condition on the state holds, up to a number of times. -/
def repeatUpTo {α : Type} (more : State → Bool) (item : Parser α) : Nat → Parser (List α)
  | 0 => pure []
  | bound + 1 => do
      if ← ask more then
        let first ← item
        let rest ← repeatUpTo more item bound
        pure (first :: rest)
      else
        pure []

/-- Runs a parser as long as a condition on the state holds. The condition fails at the end of input
and every run reads a token, so that no run is cut off. -/
def repeatWhile {α : Type} (more : State → Bool) (item : Parser α) : Parser (List α) :=
  fun state => repeatUpTo more item state.ahead.length state

/-- Runs a parser for each of some items between commas, up to a number of them, until a closing
brace. -/
def separatedUpTo {α : Type} (item : Parser α) : Nat → Parser (List α)
  | 0 => pure []
  | bound + 1 => do
      if ← ask fun state => state.sees .rightBrace || state.atEnd then
        pure []
      else
        let first ← item
        if ← ask (·.sees .comma) then
          let _ ← advance
          let rest ← separatedUpTo item bound
          pure (first :: rest)
        else
          pure [first]

/-- Runs a parser for each of some items between commas, until a closing brace. Every item but the
last is followed by a comma, so that no item is cut off. -/
def separated {α : Type} (item : Parser α) : Parser (List α) :=
  fun state => separatedUpTo item state.ahead.length state

/-- Runs a parser unless the form being read ends here. -/
def unlessClosed {α : Type} (item : Parser α) : Parser (Option α) := do
  if ← ask State.inBody then
    pure (some (← item))
  else
    pure none

/-- Reads items in parentheses, or records that the opening one is missing. -/
def parenthesized {α : Type} (message what : String) (items : Parser (List α)) :
    Parser (List α) := do
  if ← expect .leftParen message then
    let found ← items
    close what
    pure found
  else
    pure []

/-- Runs a parser, with no value if it is interrupted. -/
def unlessInterrupted {α : Type} (parser : Parser α) : Parser (Option α) :=
  fun state =>
    match parser state with
    | .done value state => .done (some value) state
    | .interrupted state => .done none state
    | .failed error => .failed error

end Parser

end ContractAudit
