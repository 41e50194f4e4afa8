import ContractAudit.Diagnostic
import ContractAudit.Syntax.Contract
import ContractAudit.Token.Basic

/-!
# Syntax of a text that is moved

A text that is put behind another one is displaced: its lines and offsets, and the numbers of the
nodes made from it, go up by what stands in front. Columns stay, since the text in front ends its
last line. Moving is defined on everything that carries a place or a node number.
-/

namespace ContractAudit

variable (d : Displacement) (location : Location) (info : NodeInfo)

/-- How much stands in front of a text. -/
structure Displacement where
  lines : Nat
  characters : Nat
  nodes : Nat

/-! ## Places -/

def Location.move (d : Displacement) (location : Location) : Location :=
  ⟨location.line + d.lines, location.column, location.offset + d.characters⟩

def Span.move (d : Displacement) (span : Span) : Span :=
  ⟨span.start.move d, span.finish.move d⟩

def NodeInfo.move (d : Displacement) (info : NodeInfo) : NodeInfo :=
  ⟨info.span.move d, info.id + d.nodes⟩

def Token.move (d : Displacement) (token : Token) : Token :=
  { token with location := token.location.move d }

def Diagnostic.move (d : Displacement) (diagnostic : Diagnostic) : Diagnostic :=
  { diagnostic with location := diagnostic.location.move d }

theorem Location.next_move (c : Char) : (location.move d).next c = (location.next c).move d := by
  unfold Location.next
  split <;> simp only [Location.move, Location.mk.injEq, true_and] <;> omega

theorem Location.after_move (text : List Char) :
    (location.move d).after text = (location.after text).move d := by
  induction text generalizing location with
  | nil => rfl
  | cons c rest ih => rw [Location.after_cons, Location.after_cons, Location.next_move, ih]

theorem Token.finish_move (token : Token) : (token.move d).finish = token.finish.move d := by
  unfold Token.finish
  show (if token.raw.toList.contains '\n' then token.location.move d
    else (token.location.move d).right token.raw.length) = _
  split
  · rfl
  · simp only [Location.move, Location.right, Location.mk.injEq, true_and]
    omega

/-! ## Types -/

namespace TypeSpec

mutual

def move (d : Displacement) : TypeSpec → TypeSpec
  | .named span name params => .named (span.move d) name (moveParams d params)
  | .tuple span fields => .tuple (span.move d) (moveFields d fields)

def moveParams (d : Displacement) : List TypeParam → List TypeParam
  | [] => []
  | .size value :: rest => .size value :: moveParams d rest
  | .type spec :: rest => .type (spec.move d) :: moveParams d rest

def moveFields (d : Displacement) : List (String × TypeSpec) → List (String × TypeSpec)
  | [] => []
  | (name, spec) :: rest => (name, spec.move d) :: moveFields d rest

end

def moveField (d : Displacement) (field : String × TypeSpec) : String × TypeSpec :=
  (field.1, field.2.move d)

end TypeSpec

def TypeParam.move (d : Displacement) : TypeParam → TypeParam
  | .size value => .size value
  | .type spec => .type (spec.move d)

namespace TypeSpec

theorem moveParams_eq (params : List TypeParam) :
    moveParams d params = params.map (TypeParam.move d) := by
  induction params with
  | nil => rfl
  | cons param rest ih => cases param <;> simp [moveParams, TypeParam.move, ih]

theorem moveFields_eq (fields : List (String × TypeSpec)) :
    moveFields d fields = fields.map (moveField d) := by
  induction fields with
  | nil => rfl
  | cons field rest ih => simp [moveFields, moveField, ih]

theorem ofWord_move (span : Span) (word : String) :
    (ofWord span word).move d = ofWord (span.move d) word := by
  unfold ofWord
  split <;> rfl

end TypeSpec

/-! ## Expressions -/

def Pattern.move (d : Displacement) : Pattern → Pattern
  | .wrapper info kind (some inner) => .wrapper (info.move d) kind (some (inner.move d))
  | .wrapper info kind .none => .wrapper (info.move d) kind .none
  | .none info => .none (info.move d)
  | .identifier info name => .identifier (info.move d) name
  | .literal info inner value => .literal (info.move d) (inner.move d) value

theorem Pattern.move_wrapper (kind : Wrapper) (inner : Option Pattern) :
    (Pattern.wrapper info kind inner).move d =
      .wrapper (info.move d) kind (inner.map (move d)) := by
  cases inner <;> simp [move]

namespace Expr

mutual

def move (d : Displacement) : Expr → Expr
  | .literal info value => .literal (info.move d) value
  | .identifier info name => .identifier (info.move d) name
  | .call info callee args => .call (info.move d) callee (moveList d args)
  | .letIn info bindings body => .letIn (info.move d) (moveNamed d bindings) (moveList d body)
  | .block info body => .block (info.move d) (moveList d body)
  | .conditional info condition yes (some no) =>
      .conditional (info.move d) (condition.move d) (yes.move d) (some (no.move d))
  | .conditional info condition yes none =>
      .conditional (info.move d) (condition.move d) (yes.move d) none
  | .matchOn info subject arms => .matchOn (info.move d) (subject.move d) (moveArms d arms)
  | .list info elements => .list (info.move d) (moveList d elements)
  | .tuple info fields => .tuple (info.move d) (moveNamed d fields)

def moveList (d : Displacement) : List Expr → List Expr
  | [] => []
  | expr :: rest => expr.move d :: moveList d rest

def moveNamed (d : Displacement) : List (Named Expr) → List (Named Expr)
  | [] => []
  | ⟨info, name, value⟩ :: rest => ⟨info.move d, name, value.move d⟩ :: moveNamed d rest

def moveArms (d : Displacement) : List (Arm Expr) → List (Arm Expr)
  | [] => []
  | ⟨info, pattern, body⟩ :: rest =>
      ⟨info.move d, pattern.move d, moveList d body⟩ :: moveArms d rest

end

end Expr

def Named.move (d : Displacement) (entry : Named Expr) : Named Expr :=
  ⟨entry.info.move d, entry.name, entry.value.move d⟩

def Arm.move (d : Displacement) (arm : Arm Expr) : Arm Expr :=
  ⟨arm.info.move d, arm.pattern.move d, arm.body.map (Expr.move d)⟩

namespace Expr

theorem moveList_eq (exprs : List Expr) : moveList d exprs = exprs.map (move d) := by
  induction exprs with
  | nil => rfl
  | cons expr rest ih => simp [moveList, ih]

theorem moveNamed_eq (entries : List (Named Expr)) :
    moveNamed d entries = entries.map (Named.move d) := by
  induction entries with
  | nil => rfl
  | cons entry rest ih => simp [moveNamed, Named.move, ih]

theorem moveArms_eq (arms : List (Arm Expr)) : moveArms d arms = arms.map (Arm.move d) := by
  induction arms with
  | nil => rfl
  | cons arm rest ih => simp [moveArms, Arm.move, moveList_eq, ih]

theorem move_conditional (condition yes : Expr) (no : Option Expr) :
    (Expr.conditional info condition yes no).move d =
      .conditional (info.move d) (condition.move d) (yes.move d) (no.map (move d)) := by
  cases no <;> simp [move]

end Expr

/-! ## Forms -/

def Parameter.move (d : Displacement) (parameter : Parameter) : Parameter :=
  ⟨parameter.name, parameter.type.move d, parameter.span.move d⟩

def TraitFunction.move (d : Displacement) (function : TraitFunction) : TraitFunction :=
  ⟨function.name, function.argTypes.map (TypeSpec.move d), function.returnType.move d,
    function.span.move d⟩

def FunctionDef.move (d : Displacement) (function : FunctionDef) : FunctionDef :=
  { function with
    info := function.info.move d
    params := function.params.map (Parameter.move d)
    body := function.body.map (Expr.move d) }

def Form.move (d : Displacement) : Form → Form
  | .function definition => .function (definition.move d)
  | .constant info name value => .constant (info.move d) name (value.move d)
  | .map info name keyType valueType => .map (info.move d) name (keyType.move d) (valueType.move d)
  | .dataVar info name type initial => .dataVar (info.move d) name (type.move d) (initial.move d)
  | .nonFungible info name assetType => .nonFungible (info.move d) name (assetType.move d)
  | .fungible info name supply => .fungible (info.move d) name (supply.map (Expr.move d))
  | .trait info name functions => .trait (info.move d) name (functions.map (TraitFunction.move d))
  | .useTrait info name reference => .useTrait (info.move d) name (reference.move d)
  | .implTrait info reference => .implTrait (info.move d) (reference.move d)

end ContractAudit
