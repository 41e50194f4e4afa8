import ContractAudit.Parse.Patterns

/-!
# Parsing expressions

Expressions nest through parentheses and braces, up to `maxNesting` levels: the parser for a level
is built from the parser for the level below it. An expression beyond the limit is passed over as a
whole and a placeholder stands in for it. A definition that starts inside an expression interrupts
the parse, because a closing parenthesis must be missing before it.
-/

namespace ContractAudit.Parser

open Parse

def maxNesting : Nat := 128

def body (nested : Parser Expr) : Parser (List Expr) :=
  repeatWhile State.inBody nested

/-- A stand-in at a location for an expression that could not be read. -/
def missing (location : Location) : Parser Expr := do
  pure (.identifier (← infoAt location) placeholder)

/-- The rest of a dotted name after its last word so far: parts are joined only if nothing stands
between them. Gives the last token, the name and the tokens after it. -/
def dottedTail (last : Token) (name : String) : List Token → Token × String × List Token
  | dot :: word :: rest =>
      if dot.kind = .dot && dot.location.offset = last.location.offset + last.raw.length &&
          word.kind.isName && word.location.offset = dot.location.offset + 1 then
        dottedTail word (name ++ "." ++ word.value) rest
      else (last, name, dot :: word :: rest)
  | rest => (last, name, rest)

def dottedName : Parser String := do
  let first ← advance
  fun state =>
    let (last, name, rest) := dottedTail first first.value state.unread
    .done name (state.goTo last rest)

/-- The tokens after a bracketed form, with the last token of the form, for tokens `level` brackets
deep inside it. The end of input is not passed. -/
def skipBrackets (previous : Token) (level : Nat) : List Token → Token × List Token
  | [] => (previous, [])
  | token :: rest =>
      match token.kind with
      | .leftParen | .leftBrace => skipBrackets token (level + 1) rest
      | .rightParen | .rightBrace =>
          if level = 1 then (token, rest) else skipBrackets token (level - 1) rest
      | .endOfInput => (previous, token :: rest)
      | _ => skipBrackets token level rest

/-- The state after the bracketed form that starts here. -/
def passOver (state : State) : State :=
  let (last, rest) := skipBrackets state.previous 0 state.unread
  state.goTo last rest

def skipNested : Parser Expr := do
  let start := (← peek).location
  report .parseError s!"Expression nested too deeply (more than {maxNesting} levels)" start
  change passOver
  missing start

/-- The parse is interrupted by a definition; the state before it is given. -/
def interrupt {α : Type} (before : State) : Parser α :=
  fun state => .interrupted { before with nextId := state.nextId, errors := state.errors }

def letBinding (nested : Parser Expr) : Parser (Named Expr) := do
  let start := (← advance).location
  let name ← expectName "binding name"
  let value ← nested
  close s!"binding '{name}'"
  pure ⟨← infoFrom start, name, value⟩

def letExpr (nested : Parser Expr) (start : Location) : Parser Expr := do
  let bindings ← parenthesized "Expected '(' before let bindings" "let bindings"
    (repeatWhile (·.sees .leftParen) (letBinding nested))
  let exprs ← body nested
  close "let expression"
  pure (.letIn (← infoFrom start) bindings exprs)

def blockExpr (nested : Parser Expr) (start : Location) : Parser Expr := do
  let exprs ← body nested
  close "begin expression"
  pure (.block (← infoFrom start) exprs)

def conditionalExpr (nested : Parser Expr) (start : Location) : Parser Expr := do
  let condition ← nested
  let thenBranch ← nested
  let elseBranch ← unlessClosed nested
  close "if expression"
  pure (.conditional (← infoFrom start) condition thenBranch elseBranch)

/-- The pattern of an arm, if it has one: the last element of a match has none, and neither has a
form that is no pattern. -/
def armPattern? : Parser (Option Pattern) := do
  let isLast ← ask fun state =>
    !state.sees .leftParen &&
      (state.second.kind = .rightParen || state.second.kind = .endOfInput)
  if isLast then pure none else pattern

/-- A pattern or, if there is none, the one for the absent value. -/
def orAbsent (start : Location) : Option Pattern → Parser Pattern
  | some found => pure found
  | none => do pure (.none (← infoAt start))

def matchArm (nested : Parser Expr) : Parser (Arm Expr) := do
  let start := (← peek).location
  let found ← armPattern?
  let pattern ← orAbsent start found
  let expr ← unlessClosed nested
  pure ⟨← infoFrom start, pattern, expr.toList⟩

def matchExpr (nested : Parser Expr) (start : Location) : Parser Expr := do
  let subject ← nested
  let arms ← repeatWhile State.inBody (matchArm nested)
  close "match expression"
  pure (.matchOn (← infoFrom start) subject arms)

def listExpr (nested : Parser Expr) (start : Location) : Parser Expr := do
  let elements ← body nested
  close "list expression"
  pure (.list (← infoFrom start) elements)

/-- A field of a tuple in parentheses; a token that opens no field is passed over. -/
def parenField (nested : Parser Expr) : Parser (Option (Named Expr)) := do
  let start := (← peek).location
  if ← expect .leftParen "Expected '(' before tuple field" then
    let name ← expectName "tuple field name"
    let value ← nested
    close s!"tuple field '{name}'"
    pure (some ⟨← infoFrom start, name, value⟩)
  else
    let _ ← advance
    pure none

def tupleExpr (nested : Parser Expr) (start : Location) : Parser Expr := do
  let fields ← repeatWhile State.inBody (parenField nested)
  close "tuple expression"
  pure (.tuple (← infoFrom start) (fields.filterMap id))

def braceField (nested : Parser Expr) : Parser (Named Expr) := do
  let start := (← peek).location
  let name ← expectName "tuple field name"
  let _ ← expect .colon "Expected ':' after tuple field name"
  let value ← nested
  pure ⟨← infoFrom start, name, value⟩

def braceTuple (nested : Parser Expr) : Parser Expr := do
  let start := (← advance).location
  let fields ← separated (braceField nested)
  let _ ← expect .rightBrace "Expected '\x7d' after tuple literal"
  pure (.tuple (← infoFrom start) fields)

/-- The name of what is called. Anything else there is read and dropped. -/
def callee (nested : Parser Expr) : Parser String := do
  if (← peek).kind.isName then dottedName
  else
    reportHere "Expected function name"
    let _ ← unlessClosed nested
    pure placeholder

def callExpr (nested : Parser Expr) (start : Location) : Parser Expr := do
  let callee ← callee nested
  let args ← body nested
  close s!"call to '{callee}'"
  pure (.call (← infoFrom start) callee args)

/-- The forms that a keyword at their head sets apart from calls. -/
def specialForm? (keyword : String) : Option (Parser Expr → Location → Parser Expr) :=
  match keyword with
  | "let" => some letExpr
  | "begin" => some blockExpr
  | "if" => some conditionalExpr
  | "match" => some matchExpr
  | "list" => some listExpr
  | "tuple" => some tupleExpr
  | _ => none

/-- An expression in parentheses after the opening one; the state before it is given. -/
def parenExprAfter (nested : Parser Expr) (before : State) (start : Location) (head : Token) :
    Parser Expr :=
  match head.kind with
  | .rightParen => do
      let _ ← advance
      report .parseError "Empty expression '()'" start
      missing start
  | .keyword => do
      if Vocabulary.definitions.contains head.value then
        report .unterminatedForm
          (s!"'{head.value}' cannot appear inside an expression; " ++
            "is a closing ')' missing?") head.location
        interrupt before
      else match specialForm? head.value with
        | some form =>
            let _ ← advance
            form nested start
        | none => callExpr nested start
  | _ => callExpr nested start

def parenExpr (nested : Parser Expr) : Parser Expr := do
  let before ← ask id
  let start := (← advance).location
  let head ← peek
  parenExprAfter nested before start head

def compoundExpr (nested : Parser Expr) : Parser Expr := do
  if ← ask (·.sees .leftParen) then parenExpr nested else braceTuple nested

def nameExpr : Parser Expr := do
  let start := (← peek).location
  let name ← dottedName
  pure (.identifier (← infoFrom start) name)

/-- A literal. Any other token is passed over. -/
def literalExpr : Parser Expr := do
  let token ← peek
  let isLocal ← ask fun state => state.sees .dot && state.second.kind = .identifier
  if isLocal then
    let _ ← advance
    let name ← dottedName
    pure (.literal (← infoFrom token.location) (.principal "" (some name)))
  else if token.kind.isLiteral then
    let (info, value) ← literal
    pure (.literal info value)
  else
    let _ ← advance
    report .unexpectedToken s!"Unexpected token {Text.quoted token.raw} in expression"
      token.location
    missing token.location

/-- An expression, with a parser for those in parentheses or braces. -/
def exprWith (compound : Parser Expr) : Parser Expr := do
  let token ← peek
  match token.kind with
  | .leftParen | .leftBrace => compound
  | .identifier | .keyword => nameExpr
  | .rightParen | .endOfInput =>
      reportHere "Expected expression"
      missing token.location
  | _ => literalExpr

def exprWithin : Nat → Parser Expr
  | 0 => exprWith skipNested
  | levels + 1 => exprWith (compoundExpr (exprWithin levels))

def expr : Parser Expr :=
  exprWithin maxNesting

end ContractAudit.Parser
