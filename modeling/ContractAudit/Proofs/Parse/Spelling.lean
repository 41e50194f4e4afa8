import ContractAudit.Syntax.Contract
import ContractAudit.Text.Numeral
import ContractAudit.Token.Scan

/-!
# Spellings of contracts

How a contract is written, token by token. A token counts by its kind and its value, which
together are its lexeme, and a number by what its digits denote. `SpellContract contract lexemes`
says that the lexemes, read from left to right, are the contract read off in source order. The
rules leave open only what the syntax tree does not record:

* the brackets of a tuple and of a tuple type, and a comma after the last field in braces;
* parentheses around the name of a type without parameters;
* whether a size in a type is marked as unsigned;
* whether a principal of this deployer stands after a dot or in one token;
* parentheses around a pattern, and the pattern of an arm for the absent value;
* the body of an arm.
-/

namespace ContractAudit

/-- A token without its place and its text. -/
structure Lexeme where
  kind : TokenKind
  value : String
deriving DecidableEq, Repr

def Token.lexeme (token : Token) : Lexeme :=
  ⟨token.kind, token.value⟩

namespace Lexeme

def leftParen : Lexeme := ⟨.leftParen, "("⟩

def rightParen : Lexeme := ⟨.rightParen, ")"⟩

def leftBrace : Lexeme := ⟨.leftBrace, "\x7b"⟩

def rightBrace : Lexeme := ⟨.rightBrace, "\x7d"⟩

def dot : Lexeme := ⟨.dot, "."⟩

def comma : Lexeme := ⟨.comma, ","⟩

def colon : Lexeme := ⟨.colon, ":"⟩

/-- A word, which is a keyword or not by itself. -/
def word (text : String) : Lexeme :=
  ⟨Scan.wordKind text.toList, text⟩

def parens (inner : List Lexeme) : List Lexeme :=
  leftParen :: (inner ++ [rightParen])

def braces (inner : List Lexeme) : List Lexeme :=
  leftBrace :: (inner ++ [rightBrace])

end Lexeme

def lexemes (tokens : List Token) : List Lexeme :=
  tokens.map Token.lexeme

@[simp]
theorem lexemes_nil : lexemes [] = [] := rfl

@[simp]
theorem lexemes_cons (token : Token) (rest : List Token) :
    lexemes (token :: rest) = token.lexeme :: lexemes rest := rfl

@[simp]
theorem lexemes_append (first second : List Token) :
    lexemes (first ++ second) = lexemes first ++ lexemes second :=
  List.map_append

open Lexeme Text.Numeral

/-- A word that is a name: the two truth values are not. -/
def IsName (text : String) : Prop :=
  (Scan.wordKind text.toList).isName = true

/-- A name or several names joined by dots. -/
inductive SpellName : String → List Lexeme → Prop where
  | word (name) : IsName name → SpellName name [word name]
  | dotted (first last lexemes) :
      SpellName first lexemes → IsName last →
      SpellName (first ++ "." ++ last) (lexemes ++ [dot, word last])

/-- A number of a type, with or without the mark of an unsigned one. -/
def SpellSize (value : Int) (lexeme : Lexeme) : Prop :=
  (lexeme.kind = .int ∨ lexeme.kind = .uint) ∧ read lexeme.value = .ok value

mutual

/-- A type. -/
inductive SpellType : TypeSpec → List Lexeme → Prop where
  | word (span name) : IsName name → SpellType (.ofWord span name) [word name]
  | named (span name params lexemes) :
      IsName name → name ≠ "tuple" → SpellParams params lexemes →
      SpellType (.named span name params) (parens (word name :: lexemes))
  | parenTuple (span fields lexemes) :
      SpellParenTypeFields fields lexemes →
      SpellType (.tuple span fields) (parens (word "tuple" :: lexemes))
  | braceTuple (span fields lexemes) :
      SpellBraceTypeFields fields lexemes →
      SpellType (.tuple span fields) (braces lexemes)

/-- The parameters of a type. -/
inductive SpellParams : List TypeParam → List Lexeme → Prop where
  | nil : SpellParams [] []
  | size (value lexeme rest lexemes) :
      SpellSize value lexeme → SpellParams rest lexemes →
      SpellParams (.size value :: rest) (lexeme :: lexemes)
  | type (spec first rest lexemes) :
      SpellType spec first → SpellParams rest lexemes →
      SpellParams (.type spec :: rest) (first ++ lexemes)

/-- The fields of a tuple type in parentheses. -/
inductive SpellParenTypeFields : List (String × TypeSpec) → List Lexeme → Prop where
  | nil : SpellParenTypeFields [] []
  | cons (name spec first rest lexemes) :
      IsName name → SpellType spec first → SpellParenTypeFields rest lexemes →
      SpellParenTypeFields ((name, spec) :: rest) (parens (word name :: first) ++ lexemes)

/-- The fields of a tuple type in braces. -/
inductive SpellBraceTypeFields : List (String × TypeSpec) → List Lexeme → Prop where
  | nil : SpellBraceTypeFields [] []
  | last (name spec first) :
      IsName name → SpellType spec first →
      SpellBraceTypeFields [(name, spec)] (word name :: colon :: first)
  | cons (name spec first rest lexemes) :
      IsName name → SpellType spec first → SpellBraceTypeFields rest lexemes →
      SpellBraceTypeFields ((name, spec) :: rest)
        (word name :: colon :: (first ++ comma :: lexemes))

end

/-- Types one after another. -/
inductive SpellTypes : List TypeSpec → List Lexeme → Prop where
  | nil : SpellTypes [] []
  | cons (spec first rest lexemes) :
      SpellType spec first → SpellTypes rest lexemes → SpellTypes (spec :: rest) (first ++ lexemes)

def principalValue (address : String) (contract : Option String) : String :=
  match contract with
  | none => address
  | some name => address ++ "." ++ name

/-- A literal of one token. -/
inductive SpellLiteral : Literal → Lexeme → Prop where
  | uint (value text) :
      read text = .ok value → SpellLiteral (.uint value) ⟨.uint, text⟩
  | int (value text) :
      read text = .ok value → SpellLiteral (.int value) ⟨.int, text⟩
  | bool (value : Bool) : SpellLiteral (.bool value) ⟨.bool, toString value⟩
  | ascii (value) : SpellLiteral (.string value .ascii) ⟨.stringAscii, value⟩
  | utf8 (value) : SpellLiteral (.string value .utf8) ⟨.stringUtf8, value⟩
  | buffer (digits) : SpellLiteral (.buffer digits) ⟨.buffer, digits⟩
  | principal (address contract) :
      '.' ∉ address.toList →
      SpellLiteral (.principal address contract) ⟨.principal, principalValue address contract⟩

mutual

/-- A pattern of a match arm. -/
inductive SpellPattern : Pattern → List Lexeme → Prop where
  | wrapper (info kind inner lexemes) :
      SpellInner inner lexemes →
      SpellPattern (.wrapper info kind inner) (word kind.label :: lexemes)
  | parenWrapper (info kind inner lexemes) :
      SpellInner inner lexemes →
      SpellPattern (.wrapper info kind inner) (parens (word kind.label :: lexemes))
  | none (info) : SpellPattern (.none info) [word "none"]
  | parenNone (info) : SpellPattern (.none info) (parens [word "none"])
  | identifier (info name) : IsName name → SpellPattern (.identifier info name) [word name]
  | literal (info literalInfo value lexeme) :
      SpellLiteral value lexeme → SpellPattern (.literal info literalInfo value) [lexeme]

/-- What a wrapper holds, if a pattern for it is written. -/
inductive SpellInner : Option Pattern → List Lexeme → Prop where
  | absent : SpellInner none []
  | present (pattern lexemes) :
      SpellPattern pattern lexemes → SpellInner (some pattern) lexemes

end

def Span.HasText (span : Span) : Prop :=
  span.start.offset < span.finish.offset

mutual

/-- An expression. A name that is an expression was read from the text, so its node is not empty.
-/
inductive SpellExpr : Expr → List Lexeme → Prop where
  | literal (info value lexeme) :
      SpellLiteral value lexeme → SpellExpr (.literal info value) [lexeme]
  | localPrincipal (info name lexemes) :
      SpellName name lexemes →
      SpellExpr (.literal info (.principal "" (some name))) (dot :: lexemes)
  | identifier (info name lexemes) :
      SpellName name lexemes → info.span.HasText → SpellExpr (.identifier info name) lexemes
  | call (info callee name args lexemes) :
      SpellName callee name → SpellExprs args lexemes →
      SpellExpr (.call info callee args) (parens (name ++ lexemes))
  | letIn (info bindings first body lexemes) :
      SpellBindings bindings first → SpellExprs body lexemes →
      SpellExpr (.letIn info bindings body) (parens (word "let" :: (parens first ++ lexemes)))
  | block (info body lexemes) :
      SpellExprs body lexemes → SpellExpr (.block info body) (parens (word "begin" :: lexemes))
  | conditional (info condition yes no first second third) :
      SpellExpr condition first → SpellExpr yes second → SpellOptional no third →
      SpellExpr (.conditional info condition yes no)
        (parens (word "if" :: (first ++ second ++ third)))
  | matchOn (info subject first arms lexemes) :
      SpellExpr subject first → SpellArms arms lexemes →
      SpellExpr (.matchOn info subject arms) (parens (word "match" :: (first ++ lexemes)))
  | list (info elements lexemes) :
      SpellExprs elements lexemes →
      SpellExpr (.list info elements) (parens (word "list" :: lexemes))
  | parenTuple (info fields lexemes) :
      SpellParenFields fields lexemes →
      SpellExpr (.tuple info fields) (parens (word "tuple" :: lexemes))
  | braceTuple (info fields lexemes) :
      SpellBraceFields fields lexemes → SpellExpr (.tuple info fields) (braces lexemes)

/-- An expression that may be left out. -/
inductive SpellOptional : Option Expr → List Lexeme → Prop where
  | absent : SpellOptional none []
  | present (expr lexemes) : SpellExpr expr lexemes → SpellOptional (some expr) lexemes

/-- Expressions one after another. -/
inductive SpellExprs : List Expr → List Lexeme → Prop where
  | nil : SpellExprs [] []
  | cons (expr first rest lexemes) :
      SpellExpr expr first → SpellExprs rest lexemes → SpellExprs (expr :: rest) (first ++ lexemes)

/-- The bindings of a `let`. -/
inductive SpellBindings : List (Named Expr) → List Lexeme → Prop where
  | nil : SpellBindings [] []
  | cons (info name value first rest lexemes) :
      IsName name → SpellExpr value first → SpellBindings rest lexemes →
      SpellBindings (⟨info, name, value⟩ :: rest) (parens (word name :: first) ++ lexemes)

/-- The arms of a match: only an arm for the absent value can go without a pattern, and then it has
a body. -/
inductive SpellArms : List (Arm Expr) → List Lexeme → Prop where
  | nil : SpellArms [] []
  | arm (info pattern first body second rest lexemes) :
      SpellPattern pattern first → SpellOptional body second → SpellArms rest lexemes →
      SpellArms (⟨info, pattern, body.toList⟩ :: rest) (first ++ second ++ lexemes)
  | absent (info patternInfo body first rest lexemes) :
      SpellExpr body first → SpellArms rest lexemes →
      SpellArms (⟨info, .none patternInfo, [body]⟩ :: rest) (first ++ lexemes)

/-- The fields of a tuple in parentheses. -/
inductive SpellParenFields : List (Named Expr) → List Lexeme → Prop where
  | nil : SpellParenFields [] []
  | cons (info name value first rest lexemes) :
      IsName name → SpellExpr value first → SpellParenFields rest lexemes →
      SpellParenFields (⟨info, name, value⟩ :: rest) (parens (word name :: first) ++ lexemes)

/-- The fields of a tuple in braces. -/
inductive SpellBraceFields : List (Named Expr) → List Lexeme → Prop where
  | nil : SpellBraceFields [] []
  | last (info name value first) :
      IsName name → SpellExpr value first →
      SpellBraceFields [⟨info, name, value⟩] (word name :: colon :: first)
  | cons (info name value first rest lexemes) :
      IsName name → SpellExpr value first → SpellBraceFields rest lexemes →
      SpellBraceFields (⟨info, name, value⟩ :: rest)
        (word name :: colon :: (first ++ comma :: lexemes))

end

/-- The parameters of a function. -/
inductive SpellParameters : List Parameter → List Lexeme → Prop where
  | nil : SpellParameters [] []
  | cons (name type span first rest lexemes) :
      IsName name → SpellType type first → SpellParameters rest lexemes →
      SpellParameters (⟨name, type, span⟩ :: rest) (parens (word name :: first) ++ lexemes)

/-- The functions that a trait asks for. -/
inductive SpellTraitFunctions : List TraitFunction → List Lexeme → Prop where
  | nil : SpellTraitFunctions [] []
  | cons (name argTypes args returnType result span rest lexemes) :
      IsName name → SpellTypes argTypes args → SpellType returnType result →
      SpellTraitFunctions rest lexemes →
      SpellTraitFunctions (⟨name, argTypes, returnType, span⟩ :: rest)
        (parens (word name :: (parens args ++ result)) ++ lexemes)

/-- A top-level form. -/
inductive SpellForm : Form → List Lexeme → Prop where
  | function (info name visibility params signature body lexemes) :
      IsName name → SpellParameters params signature → SpellExprs body lexemes →
      SpellForm (.function ⟨info, name, visibility, params, body⟩)
        (parens (word visibility.keyword :: (parens (word name :: signature) ++ lexemes)))
  | constant (info name value lexemes) :
      IsName name → SpellExpr value lexemes →
      SpellForm (.constant info name value)
        (parens (word "define-constant" :: word name :: lexemes))
  | map (info name keyType valueType first second) :
      IsName name → SpellType keyType first → SpellType valueType second →
      SpellForm (.map info name keyType valueType)
        (parens (word "define-map" :: word name :: (first ++ second)))
  | dataVar (info name type initial first second) :
      IsName name → SpellType type first → SpellExpr initial second →
      SpellForm (.dataVar info name type initial)
        (parens (word "define-data-var" :: word name :: (first ++ second)))
  | nonFungible (info name assetType lexemes) :
      IsName name → SpellType assetType lexemes →
      SpellForm (.nonFungible info name assetType)
        (parens (word "define-non-fungible-token" :: word name :: lexemes))
  | fungible (info name supply lexemes) :
      IsName name → SpellOptional supply lexemes →
      SpellForm (.fungible info name supply)
        (parens (word "define-fungible-token" :: word name :: lexemes))
  | trait (info name functions lexemes) :
      IsName name → SpellTraitFunctions functions lexemes →
      SpellForm (.trait info name functions)
        (parens (word "define-trait" :: word name :: parens lexemes))
  | useTrait (info name reference lexemes) :
      IsName name → SpellExpr reference lexemes →
      SpellForm (.useTrait info name reference) (parens (word "use-trait" :: word name :: lexemes))
  | implTrait (info reference lexemes) :
      SpellExpr reference lexemes →
      SpellForm (.implTrait info reference) (parens (word "impl-trait" :: lexemes))

/-- Forms one after another. -/
inductive SpellForms : List Form → List Lexeme → Prop where
  | nil : SpellForms [] []
  | cons (form first rest lexemes) :
      SpellForm form first → SpellForms rest lexemes → SpellForms (form :: rest) (first ++ lexemes)

def SpellContract (contract : Contract) (lexemes : List Lexeme) : Prop :=
  SpellForms contract.body lexemes

end ContractAudit
