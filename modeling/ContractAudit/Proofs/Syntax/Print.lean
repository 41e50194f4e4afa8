import ContractAudit.Parse.Expressions
import ContractAudit.Syntax.Contract
import ContractAudit.Token.Scan

/-!
# Canonical text of contracts

A syntax tree is printed as marks with one space between them. A mark is a parenthesis, a word, a
name, a literal or a size. Tuples and tuple types are printed in parentheses, and a pattern that
looks through a constructor as a whole is too, with the patterns inside it bare. `printable` says of
which trees the text can be read again, and `erase` forgets where a tree was written.
-/

namespace ContractAudit

open ContractAudit.Parser

/-- A piece of printed text. -/
inductive Mark where
  | leftParen
  | rightParen
  | word (text : String)
  | name (text : String)
  | literal (value : Literal)
  | size (value : Int)

namespace Mark

def parens (inner : List Mark) : List Mark :=
  .leftParen :: (inner ++ [.rightParen])

def escape (c : Char) : List Char :=
  if c = '"' || c = '\\' then ['\\', c] else [c]

def quoted (value : String) : String :=
  "\"" ++ String.ofList (value.toList.flatMap escape) ++ "\""

def literalText : Literal → String
  | .uint value => "u" ++ toString value
  | .int value => toString value
  | .bool value => toString value
  | .string value .ascii => quoted value
  | .string value .utf8 => "u" ++ quoted value
  | .buffer digits => "0x" ++ digits
  | .principal address contract => Literal.principalText address contract

def text : Mark → String
  | .leftParen => "("
  | .rightParen => ")"
  | .word text => text
  | .name text => text
  | .literal value => literalText value
  | .size value => toString value

end Mark

/-! ## Marks -/

namespace TypeSpec

mutual

def marks : TypeSpec → List Mark
  | .named _ name params =>
      if params.isEmpty then [.word name] else Mark.parens (.word name :: marksParams params)
  | .tuple _ fields => Mark.parens (.word "tuple" :: marksFields fields)

def marksParams : List TypeParam → List Mark
  | [] => []
  | .size value :: rest => .size value :: marksParams rest
  | .type spec :: rest => spec.marks ++ marksParams rest

def marksFields : List (String × TypeSpec) → List Mark
  | [] => []
  | (name, spec) :: rest => Mark.parens (.word name :: spec.marks) ++ marksFields rest

end

end TypeSpec

namespace Pattern

def bareMarks : Pattern → List Mark
  | .wrapper _ kind .none => [.word kind.label]
  | .wrapper _ kind (some inner) => .word kind.label :: inner.bareMarks
  | .none _ => [.word "none"]
  | .identifier _ name => [.word name]
  | .literal _ _ value => [.literal value]

def marks : Pattern → List Mark
  | .wrapper info kind inner => Mark.parens (wrapper info kind inner).bareMarks
  | pattern => pattern.bareMarks

end Pattern

namespace Expr

mutual

def marks : Expr → List Mark
  | .literal _ value => [.literal value]
  | .identifier _ name => [.name name]
  | .call _ callee args => Mark.parens (.name callee :: marksList args)
  | .letIn _ bindings body =>
      Mark.parens (.word "let" :: (Mark.parens (marksNamed bindings) ++ marksList body))
  | .block _ body => Mark.parens (.word "begin" :: marksList body)
  | .conditional _ condition yes none => Mark.parens (.word "if" :: (condition.marks ++ yes.marks))
  | .conditional _ condition yes (some no) =>
      Mark.parens (.word "if" :: (condition.marks ++ (yes.marks ++ no.marks)))
  | .matchOn _ subject arms => Mark.parens (.word "match" :: (subject.marks ++ marksArms arms))
  | .list _ elements => Mark.parens (.word "list" :: marksList elements)
  | .tuple _ fields => Mark.parens (.word "tuple" :: marksNamed fields)

def marksList : List Expr → List Mark
  | [] => []
  | expr :: rest => expr.marks ++ marksList rest

def marksNamed : List (Named Expr) → List Mark
  | [] => []
  | ⟨_, name, value⟩ :: rest => Mark.parens (.word name :: value.marks) ++ marksNamed rest

def marksArms : List (Arm Expr) → List Mark
  | [] => []
  | ⟨_, pattern, body⟩ :: rest => pattern.marks ++ (marksList body ++ marksArms rest)

end

end Expr

def Parameter.marks (param : Parameter) : List Mark :=
  Mark.parens (.word param.name :: param.type.marks)

def TraitFunction.marks (function : TraitFunction) : List Mark :=
  Mark.parens (.word function.name ::
    (Mark.parens (function.argTypes.flatMap TypeSpec.marks) ++ function.returnType.marks))

def Form.marks : Form → List Mark
  | .function ⟨_, name, visibility, params, body⟩ =>
      Mark.parens (.word visibility.keyword ::
        (Mark.parens (.word name :: params.flatMap Parameter.marks) ++ Expr.marksList body))
  | .constant _ name value => Mark.parens (.word "define-constant" :: .word name :: value.marks)
  | .map _ name key value =>
      Mark.parens (.word "define-map" :: .word name :: (key.marks ++ value.marks))
  | .dataVar _ name type initial =>
      Mark.parens (.word "define-data-var" :: .word name :: (type.marks ++ initial.marks))
  | .nonFungible _ name type =>
      Mark.parens (.word "define-non-fungible-token" :: .word name :: type.marks)
  | .fungible _ name supply =>
      Mark.parens (.word "define-fungible-token" :: .word name :: Expr.marksList supply.toList)
  | .trait _ name functions =>
      Mark.parens (.word "define-trait" :: .word name ::
        Mark.parens (functions.flatMap TraitFunction.marks))
  | .useTrait _ name reference => Mark.parens (.word "use-trait" :: .word name :: reference.marks)
  | .implTrait _ reference => Mark.parens (.word "impl-trait" :: reference.marks)

def Contract.print (contract : Contract) : String :=
  " ".intercalate ((contract.body.flatMap Form.marks).map Mark.text)

example :
    Contract.print ⟨⟨.nowhere, 0⟩, [.constant ⟨.nowhere, 0⟩ "fee" (.call ⟨.nowhere, 0⟩ "bank.fee"
      [.literal ⟨.nowhere, 0⟩ (.string "a\"b" .ascii)])]⟩ =
      "( define-constant fee ( bank.fee \"a\\\"b\" ) )" := by
  decide

/-! ## Trees that can be read again -/

/-- Whether the scanner reads a text, from its first character to its last, as one name. -/
def isWord (text : List Char) : Bool :=
  match text with
  | [] => false
  | c :: rest =>
      match Scan.scan c rest with
      | (.token kind _, length) => kind.isName && length = rest.length
      | _ => false

def isPlainName (name : String) : Bool :=
  isWord name.toList

def isDottedName (name : String) : Bool :=
  (name.toList.splitOn '.').all isWord

/-- The words that open a form of their own after a parenthesis. -/
def formWords : List String :=
  Vocabulary.definitions ++ ["let", "begin", "if", "match", "list", "tuple"]

/-- Whether a name can be called: its first word opens no form of its own. -/
def isCallee (name : String) : Bool :=
  isDottedName name && !formWords.contains (String.ofList (name.toList.takeWhile (· ≠ '.')))

/-- Whether a number has no more digits than a numeral may have. -/
def isShort (value : Int) : Bool :=
  (toString value.natAbs).length ≤ Text.Numeral.maxDigits

def Literal.printable : Literal → Bool
  | .uint value => 0 ≤ value && isShort value
  | .int value => isShort value
  | .bool _ => true
  | .string _ _ => true
  | .buffer digits => digits.toList.all fun c => c.isDigit || ('a' ≤ c && c ≤ 'f')
  | .principal address contract =>
      address.toList.all (fun c => Scan.isPrincipalChar c && c ≠ '.') &&
        contract.all fun name => name.toList.all Scan.isPrincipalChar

namespace TypeSpec

mutual

/-- Whether a type can be read again. -/
def printable : TypeSpec → Bool
  | .named _ name params => isPlainName name && name ≠ "tuple" && printableParams params
  | .tuple _ fields => printableFields fields

def printableParams : List TypeParam → Bool
  | [] => true
  | .size value :: rest => isShort value && printableParams rest
  | .type spec :: rest => spec.printable && printableParams rest

def printableFields : List (String × TypeSpec) → Bool
  | [] => true
  | (name, spec) :: rest => isPlainName name && spec.printable && printableFields rest

end

end TypeSpec

/-- Whether a pattern can be read again: a name in it is not the word of another pattern. -/
def Pattern.printable : Pattern → Bool
  | .wrapper _ _ .none => true
  | .wrapper _ _ (some inner) => inner.printable
  | .none _ => true
  | .identifier _ name => isPlainName name && !(["ok", "err", "some", "none"].contains name)
  | .literal _ _ value => value.printable

namespace Expr

mutual

/-- Whether an expression, with at most a number of compound ones inside each other, can be read
again. -/
def printable (levels : Nat) : Expr → Bool
  | .literal _ value => value.printable
  | .identifier _ name => isDottedName name
  | .call _ callee args => 0 < levels && isCallee callee && printableList (levels - 1) args
  | .letIn _ bindings body =>
      0 < levels && printableNamed (levels - 1) bindings && printableList (levels - 1) body
  | .block _ body => 0 < levels && printableList (levels - 1) body
  | .conditional _ condition yes none =>
      0 < levels && condition.printable (levels - 1) && yes.printable (levels - 1)
  | .conditional _ condition yes (some no) =>
      0 < levels && condition.printable (levels - 1) && yes.printable (levels - 1) &&
        no.printable (levels - 1)
  | .matchOn _ subject arms =>
      0 < levels && subject.printable (levels - 1) && printableArms (levels - 1) arms
  | .list _ elements => 0 < levels && printableList (levels - 1) elements
  | .tuple _ fields => 0 < levels && printableNamed (levels - 1) fields

def printableList (levels : Nat) : List Expr → Bool
  | [] => true
  | expr :: rest => expr.printable levels && printableList levels rest

def printableNamed (levels : Nat) : List (Named Expr) → Bool
  | [] => true
  | ⟨_, name, value⟩ :: rest =>
      isPlainName name && value.printable levels && printableNamed levels rest

/-- Whether match arms can be read again: each has one expression. -/
def printableArms (levels : Nat) : List (Arm Expr) → Bool
  | [] => true
  | ⟨_, pattern, [expr]⟩ :: rest =>
      pattern.printable && expr.printable levels && printableArms levels rest
  | _ :: _ => false

end

end Expr

def TraitFunction.printable (function : TraitFunction) : Bool :=
  isPlainName function.name && function.argTypes.all TypeSpec.printable &&
    function.returnType.printable

def Form.printable : Form → Bool
  | .function ⟨_, name, _, params, body⟩ =>
      isPlainName name && params.all (fun param =>
        isPlainName param.name && param.type.printable) &&
        Expr.printableList maxNesting body
  | .constant _ name value => isPlainName name && value.printable maxNesting
  | .map _ name key value => isPlainName name && key.printable && value.printable
  | .dataVar _ name type initial =>
      isPlainName name && type.printable && initial.printable maxNesting
  | .nonFungible _ name type => isPlainName name && type.printable
  | .fungible _ name supply =>
      isPlainName name && Expr.printableList maxNesting supply.toList
  | .trait _ name functions => isPlainName name && functions.all TraitFunction.printable
  | .useTrait _ name reference => isPlainName name && reference.printable maxNesting
  | .implTrait _ reference => reference.printable maxNesting

def Contract.printable (contract : Contract) : Bool :=
  contract.body.all Form.printable

/-! ## Trees without places -/

def NodeInfo.nowhere : NodeInfo := ⟨.nowhere, 0⟩

namespace TypeSpec

mutual

def erase : TypeSpec → TypeSpec
  | .named _ name params => .named .nowhere name (eraseParams params)
  | .tuple _ fields => .tuple .nowhere (eraseFields fields)

def eraseParams : List TypeParam → List TypeParam
  | [] => []
  | .size value :: rest => .size value :: eraseParams rest
  | .type spec :: rest => .type spec.erase :: eraseParams rest

def eraseFields : List (String × TypeSpec) → List (String × TypeSpec)
  | [] => []
  | (name, spec) :: rest => (name, spec.erase) :: eraseFields rest

end

end TypeSpec

def Pattern.erase : Pattern → Pattern
  | .wrapper _ kind .none => .wrapper .nowhere kind .none
  | .wrapper _ kind (some inner) => .wrapper .nowhere kind (some inner.erase)
  | .none _ => .none .nowhere
  | .identifier _ name => .identifier .nowhere name
  | .literal _ _ value => .literal .nowhere .nowhere value

namespace Expr

mutual

/-- An expression without its places and numbers. -/
def erase : Expr → Expr
  | .literal _ value => .literal .nowhere value
  | .identifier _ name => .identifier .nowhere name
  | .call _ callee args => .call .nowhere callee (eraseList args)
  | .letIn _ bindings body => .letIn .nowhere (eraseNamed bindings) (eraseList body)
  | .block _ body => .block .nowhere (eraseList body)
  | .conditional _ condition yes none => .conditional .nowhere condition.erase yes.erase none
  | .conditional _ condition yes (some no) =>
      .conditional .nowhere condition.erase yes.erase (some no.erase)
  | .matchOn _ subject arms => .matchOn .nowhere subject.erase (eraseArms arms)
  | .list _ elements => .list .nowhere (eraseList elements)
  | .tuple _ fields => .tuple .nowhere (eraseNamed fields)

def eraseList : List Expr → List Expr
  | [] => []
  | expr :: rest => expr.erase :: eraseList rest

def eraseNamed : List (Named Expr) → List (Named Expr)
  | [] => []
  | ⟨_, name, value⟩ :: rest => ⟨.nowhere, name, value.erase⟩ :: eraseNamed rest

def eraseArms : List (Arm Expr) → List (Arm Expr)
  | [] => []
  | ⟨_, pattern, body⟩ :: rest => ⟨.nowhere, pattern.erase, eraseList body⟩ :: eraseArms rest

end

end Expr

def Parameter.erase (param : Parameter) : Parameter :=
  ⟨param.name, param.type.erase, .nowhere⟩

def TraitFunction.erase (function : TraitFunction) : TraitFunction :=
  ⟨function.name, function.argTypes.map TypeSpec.erase, function.returnType.erase, .nowhere⟩

def Form.erase : Form → Form
  | .function ⟨_, name, visibility, params, body⟩ =>
      .function ⟨.nowhere, name, visibility, params.map Parameter.erase, Expr.eraseList body⟩
  | .constant _ name value => .constant .nowhere name value.erase
  | .map _ name key value => .map .nowhere name key.erase value.erase
  | .dataVar _ name type initial => .dataVar .nowhere name type.erase initial.erase
  | .nonFungible _ name type => .nonFungible .nowhere name type.erase
  | .fungible _ name supply => .fungible .nowhere name (supply.map Expr.erase)
  | .trait _ name functions => .trait .nowhere name (functions.map TraitFunction.erase)
  | .useTrait _ name reference => .useTrait .nowhere name reference.erase
  | .implTrait _ reference => .implTrait .nowhere reference.erase

def Contract.erase (contract : Contract) : Contract :=
  ⟨.nowhere, contract.body.map Form.erase⟩

/-! ## Lists of parts

The functions above go through the parts of a tree one by one; as lists of parts they are the usual
ones. -/

namespace TypeParam

def marks : TypeParam → List Mark
  | .size value => [.size value]
  | .type spec => spec.marks

def printable : TypeParam → Bool
  | .size value => isShort value
  | .type spec => spec.printable

def erase : TypeParam → TypeParam
  | .size value => .size value
  | .type spec => .type spec.erase

end TypeParam

namespace TypeSpec

variable (fields : List (String × TypeSpec)) (params : List TypeParam)

theorem printableParams_eq : printableParams params = params.all TypeParam.printable := by
  induction params with
  | nil => rfl
  | cons param params ih => cases param <;> simp [printableParams, TypeParam.printable, ih]

theorem printableFields_eq :
    printableFields fields = fields.all fun field => isPlainName field.1 && field.2.printable := by
  induction fields with
  | nil => rfl
  | cons field fields ih => simp [printableFields, ih]

theorem eraseParams_eq : eraseParams params = params.map TypeParam.erase := by
  induction params with
  | nil => rfl
  | cons param params ih => cases param <;> simp [eraseParams, TypeParam.erase, ih]

theorem eraseFields_eq : eraseFields fields = fields.map fun field => (field.1, field.2.erase) := by
  induction fields with
  | nil => rfl
  | cons field fields ih => simp [eraseFields, ih]

end TypeSpec

def Named.marks (field : Named Expr) : List Mark :=
  Mark.parens (.word field.name :: field.value.marks)

def Named.erase (field : Named Expr) : Named Expr :=
  ⟨.nowhere, field.name, field.value.erase⟩

def Arm.marks (arm : Arm Expr) : List Mark :=
  arm.pattern.marks ++ arm.body.flatMap Expr.marks

def Arm.erase (arm : Arm Expr) : Arm Expr :=
  ⟨.nowhere, arm.pattern.erase, arm.body.map Expr.erase⟩

namespace Expr

variable (levels : Nat) (fields : List (Named Expr)) (arms : List (Arm Expr)) (exprs : List Expr)

theorem marksList_eq : marksList exprs = exprs.flatMap marks := by
  induction exprs with
  | nil => rfl
  | cons expr exprs ih => simp [marksList, ih]

theorem marksNamed_eq : marksNamed fields = fields.flatMap Named.marks := by
  induction fields with
  | nil => rfl
  | cons field fields ih => simp [marksNamed, Named.marks, ih]

theorem marksArms_eq : marksArms arms = arms.flatMap Arm.marks := by
  induction arms with
  | nil => rfl
  | cons arm arms ih => simp [marksArms, Arm.marks, marksList_eq, ih]

theorem printableList_eq : printableList levels exprs = exprs.all (printable levels) := by
  induction exprs with
  | nil => rfl
  | cons expr exprs ih => simp [printableList, ih]

theorem printableNamed_eq : printableNamed levels fields =
      fields.all fun field => isPlainName field.name && field.value.printable levels := by
  induction fields with
  | nil => rfl
  | cons field fields ih => simp [printableNamed, ih]

theorem printableArms_eq : printableArms levels arms =
      arms.all fun arm => arm.body.length = 1 &&
        arm.body.all fun expr => arm.pattern.printable && expr.printable levels := by
  induction arms with
  | nil => rfl
  | cons arm arms ih =>
      obtain ⟨info, pattern, _ | ⟨expr, _ | ⟨other, body⟩⟩⟩ := arm <;> simp [printableArms, ih]

theorem erase_conditional (info : NodeInfo) (condition yes : Expr) (no : Option Expr) :
    (Expr.conditional info condition yes no).erase =
      .conditional .nowhere condition.erase yes.erase (no.map erase) := by
  cases no <;> rfl

theorem eraseList_eq : eraseList exprs = exprs.map erase := by
  induction exprs with
  | nil => rfl
  | cons expr exprs ih => simp [eraseList, ih]

theorem eraseNamed_eq : eraseNamed fields = fields.map Named.erase := by
  induction fields with
  | nil => rfl
  | cons field fields ih => simp [eraseNamed, Named.erase, ih]

theorem eraseArms_eq : eraseArms arms = arms.map Arm.erase := by
  induction arms with
  | nil => rfl
  | cons arm arms ih => simp [eraseArms, Arm.erase, eraseList_eq, ih]

end Expr

end ContractAudit
