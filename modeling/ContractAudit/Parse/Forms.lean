import ContractAudit.Parse.Expressions
import ContractAudit.Parse.Types
import ContractAudit.Syntax.Contract
import ContractAudit.Token.Scan

/-!
# Parsing contracts

A contract is read form by form. After a malformed form the parse goes on at the next definition, or
at the next token that starts a later line in its first column. A function that a definition cuts
short keeps the expressions read before.
-/

namespace ContractAudit

namespace Parser

open Parse

/-- What the parse of a top-level form gives. -/
structure FormResult where
  form : Option Form
  /-- Whether a definition cut the form short. -/
  cut : Bool

def parameter : Parser Parameter := do
  let start := (← advance).location
  let name ← expectName "parameter name"
  let type ← typeSpec
  close "parameter"
  pure ⟨name, type, ← spanFrom start⟩

section Read

-- The reader of the expressions inside a form.
variable (read : Parser Expr)

/-- The expressions of a function body, up to a number of them, and whether a definition cuts them
short. -/
def functionBodyUpTo : Nat → Parser (List Expr × Bool)
  | 0 => pure ([], false)
  | bound + 1 => do
      if ← ask State.inBody then
        match ← unlessInterrupted read with
        | some first =>
            let (rest, cut) ← functionBodyUpTo bound
            pure (first :: rest, cut)
        | none => pure ([], true)
      else
        pure ([], false)

def functionBody : Parser (List Expr × Bool) :=
  fun state => functionBodyUpTo read state.ahead.length state

/-- Reads the parenthesis that closes a form, unless a definition cut the form short. -/
def closeUnless (cut : Bool) (what : String) : Parser Unit :=
  if cut then pure () else close what

def function (visibility : Visibility) (start : Location) : Parser FormResult := do
  let _ ← expect .leftParen "Expected '(' before function signature"
  let name ← expectName "function name"
  let params ← repeatWhile (·.sees .leftParen) parameter
  close "function signature"
  let (exprs, cut) ← functionBody read
  closeUnless cut s!"function '{name}'"
  pure ⟨some (.function ⟨← infoFrom start, name, visibility, params, exprs⟩), cut⟩

def constant (start : Location) : Parser Form := do
  let name ← expectName "constant name"
  let value ← read
  close "constant definition"
  pure (.constant (← infoFrom start) name value)

def map (start : Location) : Parser Form := do
  let name ← expectName "map name"
  let keyType ← typeSpec
  let valueType ← typeSpec
  close "map definition"
  pure (.map (← infoFrom start) name keyType valueType)

def dataVar (start : Location) : Parser Form := do
  let name ← expectName "variable name"
  let type ← typeSpec
  let initial ← read
  close "data var definition"
  pure (.dataVar (← infoFrom start) name type initial)

def nonFungible (start : Location) : Parser Form := do
  let name ← expectName "NFT name"
  let assetType ← typeSpec
  close "NFT definition"
  pure (.nonFungible (← infoFrom start) name assetType)

def fungible (start : Location) : Parser Form := do
  let name ← expectName "FT name"
  let supply ← unlessClosed read
  close "FT definition"
  pure (.fungible (← infoFrom start) name supply)

def traitFunction : Parser TraitFunction := do
  let start := (← advance).location
  let name ← expectName "trait function name"
  let argTypes ← parenthesized "Expected '(' before trait function arguments"
    "trait function arguments" (repeatWhile State.inBody typeSpec)
  let returnType ← typeSpec
  close s!"trait function '{name}'"
  pure ⟨name, argTypes, returnType, ← spanFrom start⟩

def trait (start : Location) : Parser Form := do
  let name ← expectName "trait name"
  let functions ← parenthesized "Expected '(' before trait body" "trait body"
    (repeatWhile (·.sees .leftParen) traitFunction)
  close s!"trait '{name}'"
  pure (.trait (← infoFrom start) name functions)

def useTrait (start : Location) : Parser Form := do
  let name ← expectName "trait alias"
  let reference ← read
  close "use-trait"
  pure (.useTrait (← infoFrom start) name reference)

def implTrait (start : Location) : Parser Form := do
  let reference ← read
  close "impl-trait"
  pure (.implTrait (← infoFrom start) reference)

/-- A form that is dropped if a definition cuts it short. -/
def whole (parser : Parser Form) : Parser FormResult := do
  let form ← unlessInterrupted parser
  pure ⟨form, form.isNone⟩

def formAfter? (keyword : String) : Option (Location → Parser FormResult) :=
  match keyword with
  | "define-constant" => some fun start => whole (constant read start)
  | "define-public" => some (function read .external)
  | "define-private" => some (function read .internal)
  | "define-read-only" => some (function read .readOnly)
  | "define-map" => some fun start => whole (map start)
  | "define-data-var" => some fun start => whole (dataVar read start)
  | "define-non-fungible-token" => some fun start => whole (nonFungible start)
  | "define-fungible-token" => some fun start => whole (fungible read start)
  | "define-trait" => some fun start => whole (trait start)
  | "use-trait" => some fun start => whole (useTrait read start)
  | "impl-trait" => some fun start => whole (implTrait read start)
  | _ => none

def formAt? (head : Token) : Option (Location → Parser FormResult) :=
  if head.kind = .keyword then formAfter? read head.value else none

def form : Parser FormResult := do
  let first ← advance
  if first.kind ≠ .leftParen then
    report .unexpectedToken s!"Expected top-level form, found {Text.quoted first.raw}"
      first.location
    pure ⟨none, false⟩
  else
    let head ← peek
    match formAt? read head with
    | some rest =>
        let _ ← advance
        rest first.location
    | none =>
        let shown := if head.raw.isEmpty then "end of input" else head.raw
        report .unknownDefinition s!"Unknown top-level form: {Text.quoted shown}" head.location
        pure ⟨none, false⟩

def startsDefinition : List Token → Bool
  | first :: second :: _ =>
      first.kind = .leftParen && second.kind = .keyword &&
        Vocabulary.definitions.contains second.value
  | _ => false

/-- The tokens from the next definition on, from the next token that starts a line below the given
one in its first column, or from the end of input on, with the token before them. -/
def skipToForm (line : Int) (previous : Token) : List Token → Token × List Token
  | [] => (previous, [])
  | token :: rest =>
      if token.kind = .endOfInput || startsDefinition (token :: rest) ||
          (line < token.location.line && token.location.column = 1) then
        (previous, token :: rest)
      else skipToForm line token rest

/-- The state from which the parse goes on after a malformed form that starts on the given line. Of
the tokens left, the first is passed over unless it starts a definition. -/
def resume (line : Int) (state : State) : State :=
  if startsDefinition state.unread || state.atEnd then state
  else
    let (previous, rest) := skipToForm line state.current (state.unread.drop 1)
    state.goTo previous rest

/-- Goes on at a later form if the one that starts on the given line is malformed. -/
def resumeIf (malformed : Bool) (line : Int) : Parser Unit :=
  if malformed then change (resume line) else pure ()

def formThenResume : Parser (Option Form) := do
  let line := (← peek).location.line
  let errorsBefore ← ask (·.errors.length)
  let result ← form read
  let errorsAfter ← ask (·.errors.length)
  resumeIf (!result.cut && errorsBefore < errorsAfter) line
  pure result.form

def forms : Parser (List (Option Form)) :=
  repeatWhile (fun state => !state.atEnd) (formThenResume read)

def contract : Parser Contract := do
  let start := (← peek).location
  let forms ← forms read
  pure ⟨← infoFrom start, forms.filterMap id⟩

end Read

end Parser

/-- What a parse gives: a contract, whatever was wrong with the text, and what was. -/
structure ParseResult where
  contract : Contract
  errors : List Diagnostic

def ParseResult.success (result : ParseResult) : Bool :=
  result.errors.isEmpty

/-- An end of input at the place of the last of some tokens. -/
def endAfter (tokens : List Token) : Token :=
  ⟨.endOfInput, "", "", (tokens.getLast?.map Token.location).getD Location.start⟩

/-- The tokens that mean something, with an end of input behind them if the last one is none. -/
def meaningful (tokens : List Token) : List Token :=
  let kept := tokens.filter fun token => !token.kind.isGap
  if kept.getLast?.any fun token => token.kind = .endOfInput then kept
  else kept ++ [endAfter kept]

/-- The first end of input of a token list, or one behind it if it has none. -/
def endToken (tokens : List Token) : Token :=
  (tokens.find? fun token => token.kind = .endOfInput).getD (endAfter tokens)

theorem endToken_kind (tokens : List Token) : (endToken tokens).kind = .endOfInput := by
  unfold endToken
  cases h : tokens.find? fun token => token.kind = .endOfInput with
  | some token => simpa using List.find?_some h
  | none => rfl

/-- The state before a token list is read. Tokens that mean nothing are left out. -/
def Parse.State.ofTokens (tokens : List Token) : Parse.State :=
  let stream := meaningful tokens
  let ahead := stream.takeWhile fun token => token.kind ≠ .endOfInput
  have live (token) (htoken : token ∈ ahead) : token.kind ≠ .endOfInput :=
    of_decide_eq_true (List.all_eq_true.mp List.all_takeWhile token htoken)
  let beyond := (stream.dropWhile fun token => token.kind ≠ .endOfInput).tail
  let finish := endToken stream
  ⟨stream.headD finish, ahead, live, finish, endToken_kind stream, beyond, 0, []⟩

/-- Parses a token list with the nesting of expressions limited to a number of levels. Only a
numeral that denotes no integer prevents a result. -/
def parseTokensWithin (levels : Nat) (tokens : List Token) :
    Except Text.Numeral.Error ParseResult :=
  -- A form that is cut short catches the interruption, so the second case does not arise.
  match Parser.contract (Parser.exprWithin levels) (.ofTokens tokens) with
  | .done contract state => .ok ⟨contract, state.errors⟩
  | .interrupted state => .ok ⟨⟨⟨.nowhere, state.nextId⟩, []⟩, state.errors⟩
  | .failed error => .error error

def parseTokens : List Token → Except Text.Numeral.Error ParseResult :=
  parseTokensWithin Parser.maxNesting

def parse (source : String) : Except Text.Numeral.Error ParseResult :=
  parseTokens (tokenize source)

end ContractAudit
