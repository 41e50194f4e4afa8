import ContractAudit.Syntax.Expr
import ContractAudit.Syntax.TypeSpec

/-!
# Contracts

A contract is a sequence of top-level forms: definitions of functions, constants, data variables,
maps, tokens and traits, and declarations that a trait is used or implemented.
-/

namespace ContractAudit

/-- Who may call a function. -/
inductive Visibility where
  /-- Anyone. -/
  | external
  /-- The contract itself. -/
  | internal
  /-- Anyone, since the function changes nothing. -/
  | readOnly
deriving DecidableEq, Repr

namespace Visibility

def label : Visibility → String
  | .external => "public"
  | .internal => "private"
  | .readOnly => "read-only"

def ofLabel? (label : String) : Option Visibility :=
  [Visibility.external, .internal, .readOnly].find? fun visibility => visibility.label = label

def keyword : Visibility → String
  | .external => "define-public"
  | .internal => "define-private"
  | .readOnly => "define-read-only"

/-- What a defining keyword says after its first word, which has seven characters. -/
def keywordTail (keyword : String) : String :=
  String.ofList (keyword.toList.drop 7)

/-- The visibility that a defining keyword declares. -/
def ofKeyword? (keyword : String) : Option Visibility :=
  ofLabel? (keywordTail keyword)

end Visibility

/-- A parameter of a function. -/
structure Parameter where
  name : String
  type : TypeSpec
  span : Span

/-- A function that a trait asks for. -/
structure TraitFunction where
  name : String
  argTypes : List TypeSpec
  returnType : TypeSpec
  span : Span

/-- A function definition. -/
structure FunctionDef where
  info : NodeInfo
  name : String
  visibility : Visibility
  params : List Parameter
  body : List Expr

namespace FunctionDef

def location (function : FunctionDef) : Location :=
  function.info.span.start

/-- Whether a function may be called by anyone and may change state. -/
def isPublic (function : FunctionDef) : Bool :=
  function.visibility = .external

end FunctionDef

/-- A top-level form. -/
inductive Form where
  | function (definition : FunctionDef)
  | constant (info : NodeInfo) (name : String) (value : Expr)
  | map (info : NodeInfo) (name : String) (keyType valueType : TypeSpec)
  | dataVar (info : NodeInfo) (name : String) (type : TypeSpec) (initial : Expr)
  | nonFungible (info : NodeInfo) (name : String) (assetType : TypeSpec)
  | fungible (info : NodeInfo) (name : String) (supply : Option Expr)
  | trait (info : NodeInfo) (name : String) (functions : List TraitFunction)
  | useTrait (info : NodeInfo) (name : String) (reference : Expr)
  | implTrait (info : NodeInfo) (reference : Expr)

namespace Form

def info : Form → NodeInfo
  | .function definition => definition.info
  | .constant info _ _ => info
  | .map info _ _ _ => info
  | .dataVar info _ _ _ => info
  | .nonFungible info _ _ => info
  | .fungible info _ _ => info
  | .trait info _ _ => info
  | .useTrait info _ _ => info
  | .implTrait info _ => info

/-- The name that a form defines; declarations about traits define none. -/
def name? : Form → Option String
  | .function definition => some definition.name
  | .constant _ name _ => some name
  | .map _ name _ _ => some name
  | .dataVar _ name _ _ => some name
  | .nonFungible _ name _ => some name
  | .fungible _ name _ => some name
  | .trait _ name _ => some name
  | .useTrait _ _ _ => none
  | .implTrait _ _ => none

def function? : Form → Option FunctionDef
  | .function definition => some definition
  | _ => none

end Form

/-- Whether two lists have the same length and agree pairwise. -/
def agree {α : Type} (same : α → α → Bool) (xs ys : List α) : Bool :=
  xs.length = ys.length && (xs.zip ys).all fun pair => same pair.1 pair.2

namespace Parameter

def same (x y : Parameter) : Bool :=
  x.name = y.name && x.type.same y.type && x.span = y.span

end Parameter

namespace TraitFunction

def same (x y : TraitFunction) : Bool :=
  x.name = y.name && agree TypeSpec.same x.argTypes y.argTypes &&
    x.returnType.same y.returnType && x.span = y.span

end TraitFunction

namespace FunctionDef

def same (x y : FunctionDef) : Bool :=
  x.info.span = y.info.span && x.name = y.name && x.visibility = y.visibility &&
    agree Parameter.same x.params y.params && Expr.sameList x.body y.body

end FunctionDef

namespace Form

def same : Form → Form → Bool
  | .function x, .function y => x.same y
  | .constant info name value, .constant info' name' value' =>
      info.span = info'.span && name = name' && value.same value'
  | .map info name key value, .map info' name' key' value' =>
      info.span = info'.span && name = name' && key.same key' && value.same value'
  | .dataVar info name type initial, .dataVar info' name' type' initial' =>
      info.span = info'.span && name = name' && type.same type' && initial.same initial'
  | .nonFungible info name type, .nonFungible info' name' type' =>
      info.span = info'.span && name = name' && type.same type'
  | .fungible info name supply, .fungible info' name' supply' =>
      info.span = info'.span && name = name' && Expr.sameList supply.toList supply'.toList
  | .trait info name functions, .trait info' name' functions' =>
      info.span = info'.span && name = name' && agree TraitFunction.same functions functions'
  | .useTrait info name reference, .useTrait info' name' reference' =>
      info.span = info'.span && name = name' && reference.same reference'
  | .implTrait info reference, .implTrait info' reference' =>
      info.span = info'.span && reference.same reference'
  | _, _ => false

end Form

/-- A whole contract. -/
structure Contract where
  info : NodeInfo
  body : List Form

namespace Contract

def functions (contract : Contract) : List FunctionDef :=
  contract.body.filterMap Form.function?

def same (x y : Contract) : Bool :=
  x.info.span = y.info.span && agree Form.same x.body y.body

end Contract

end ContractAudit
