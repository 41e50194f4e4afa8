import ContractAudit.Parse.State

/-!
# Parsing literals and match patterns

A wrapper pattern may stand bare or in parentheses. In parentheses it is a pattern only if the body
of an arm follows it; otherwise it is the last expression of the match itself.
-/

namespace ContractAudit.Parser

open Parse

def literalValue (token : Token) : Parser Literal :=
  match token.kind with
  | .uint => do pure (.uint (← integer token.value))
  | .int => do pure (.int (← integer token.value))
  | .bool => pure (.bool (token.value = "true"))
  | .stringAscii => pure (.string token.value .ascii)
  | .stringUtf8 => pure (.string token.value .utf8)
  | .buffer => pure (.buffer token.value)
  | _ =>
      let (address, contract) := token.value.toList.span (· ≠ '.')
      pure (.principal (String.ofList address) (contract.tail?.map String.ofList))

def literal : Parser (NodeInfo × Literal) := do
  let token ← advance
  let value ← literalValue token
  pure (← infoFrom token.location, value)

/-- Whether something other than a closing parenthesis follows the form that the tokens open, which
is `depth` levels deep at their start. -/
def moreFollows (depth : Nat) : List Token → Bool
  | [] => false
  | token :: rest =>
      match token.kind with
      | .leftParen => moreFollows (depth + 1) rest
      | .rightParen =>
          if depth = 1 then
            rest.head?.any fun next => next.kind ≠ .rightParen && next.kind ≠ .endOfInput
          else moreFollows (depth - 1) rest
      | .endOfInput => false
      | _ => moreFollows depth rest

/-- Whether a token in parentheses can start a pattern: it is a wrapper or the absent value. -/
def isPatternHead (head : Token) : Bool :=
  head.kind = .keyword && ((Wrapper.ofLabel? head.value).isSome || head.value = "none")

/-- A pattern in parentheses after its head, which is a wrapper or the absent value. -/
def parenPatternAfter (nested : Parser (Option Pattern)) (start : Location) (head : Token) :
    Parser Pattern :=
  match Wrapper.ofLabel? head.value with
  | some kind => do
      let inner := (← unlessClosed nested).join
      close s!"'{head.value}' pattern"
      pure (.wrapper (← infoFrom start) kind inner)
  | none => do
      close s!"'{head.value}' pattern"
      pure (.none (← infoFrom start))

def parenPattern (nested : Parser (Option Pattern)) (head : Token) : Parser Pattern := do
  let start := (← advance).location
  let _ ← advance
  parenPatternAfter nested start head

def wordPatternAfter (nested : Parser (Option Pattern)) (token : Token) : Parser Pattern :=
  match Wrapper.ofLabel? token.value with
  | some kind => do
      let inner := (← unlessClosed nested).join
      pure (.wrapper (← infoFrom token.location) kind inner)
  | none => do
      let info ← infoFrom token.location
      pure (if token.value = "none" then .none info else .identifier info token.value)

def wordPattern (nested : Parser (Option Pattern)) (token : Token) : Parser Pattern := do
  let _ ← advance
  wordPatternAfter nested token

def literalPattern (token : Token) : Parser (Option Pattern) := do
  if token.kind.isLiteral then
    let (info, value) ← literal
    pure (some (.literal (← infoFrom token.location) info value))
  else
    pure none

/-- A pattern, with a parser for the pattern nested in it; nothing if none stands here. -/
def patternWith (nested : Parser (Option Pattern)) : Parser (Option Pattern) := do
  let token ← peek
  match token.kind with
  | .leftParen =>
      let head ← ask State.second
      if ← ask fun state => isPatternHead head && moreFollows 0 state.unread then
        pure (some (← parenPattern nested head))
      else
        pure none
  | .keyword => pure (some (← wordPattern nested token))
  | .identifier =>
      let _ ← advance
      pure (some (.identifier (← infoFrom token.location) token.value))
  | _ => literalPattern token

def patternWithin : Nat → Parser (Option Pattern)
  | 0 => pure none
  | levels + 1 => patternWith (patternWithin levels)

/-- A pattern, or nothing if none stands here. A nested pattern stands after a word that is read
first, so the number of unread tokens bounds the nesting. -/
def pattern : Parser (Option Pattern) :=
  fun state => patternWithin state.ahead.length state

end ContractAudit.Parser
