import ContractAudit.Semantic.Scope
import ContractAudit.Syntax.Contract
import ContractAudit.Table
import ContractAudit.Parse.State

/-!
# The environment of a contract

The names that a contract defines, in one table for each kind of definition. The first definition of
a name is kept and every later one is reported. A definition whose name could not be read declares
nothing.
-/

namespace ContractAudit

/-- A declared function. -/
structure FunctionEntry where
  visibility : Visibility
  params : List (String × ValueType)
  span : Span
  returnType : ValueType

/-- A declared constant. -/
structure ConstantEntry where
  type : ValueType
  span : Span
  used : Bool

/-- A declared data variable. -/
structure VariableEntry where
  type : ValueType
  span : Span
  accessed : Bool
  modified : Bool

/-- A declared map. -/
structure MapEntry where
  keyType : ValueType
  valueType : ValueType
  span : Span
  accessed : Bool
  modified : Bool

/-- A defined or imported trait. -/
structure TraitEntry where
  functions : List String
  span : Span
  imported : Bool

/-- A declared token. -/
structure TokenEntry where
  fungible : Bool
  span : Span
  accessed : Bool
  modified : Bool

/-- The names that a contract defines. -/
structure Environment where
  functions : Table String FunctionEntry
  constants : Table String ConstantEntry
  dataVars : Table String VariableEntry
  maps : Table String MapEntry
  traits : Table String TraitEntry
  tokens : Table String TokenEntry

namespace Environment

def empty : Environment :=
  ⟨.empty, .empty, .empty, .empty, .empty, .empty⟩

def summary (environment : Environment) : List (String × Nat) :=
  [("functions", environment.functions.size), ("constants", environment.constants.size),
   ("variables", environment.dataVars.size), ("maps", environment.maps.size),
   ("traits", environment.traits.size), ("tokens", environment.tokens.size)]

def isNew {α : Type} (table : Table String α) (name : String) : Bool :=
  name ≠ Parse.placeholder && !table.contains name

def duplicate? {α : Type} (table : Table String α) (label name : String) (location : Location) :
    Option Diagnostic :=
  if name ≠ Parse.placeholder && table.contains name then
    some (.error .semantic .duplicateDefinition s!"{label} '{name}' is already defined" location)
  else none

def declareIn {α : Type} (table : Table String α) (name : String) (entry : α) : Table String α :=
  if isNew table name then table.insert name entry else table

def literalType : Literal → ValueType
  | .uint _ => .uint
  | .int _ => .int
  | .bool _ => .bool
  | .string value .ascii => .string .stringAscii (some value.length)
  | .string value .utf8 => .string .stringUtf8 (some value.length)
  | .buffer digits => .buff (some (Literal.bufferSize digits))
  | .principal _ _ => .principal

/-- The type of a constant before its value is analysed. -/
def declaredType : Expr → ValueType
  | .literal _ value => literalType value
  | .identifier _ name =>
      if name = "tx-sender" || name = "contract-caller" then .principal else .uint
  | _ => .uint

/-- The environment with the definition of a form added, and the error if it is not the first of its
name. -/
def declare (environment : Environment) (form : Form) : Environment × Option Diagnostic :=
  let location := form.info.span.start
  let span := form.info.span
  match form with
  | .function f =>
      let params := f.params.map fun param => (param.name, param.type.toValueType)
      ({ environment with
          functions := declareIn environment.functions f.name ⟨f.visibility, params, span, .uint⟩ },
        duplicate? environment.functions "Function" f.name location)
  | .constant _ name value =>
      ({ environment with
          constants := declareIn environment.constants name ⟨declaredType value, span, false⟩ },
        duplicate? environment.constants "Constant" name location)
  | .dataVar _ name type _ =>
      ({ environment with
          dataVars :=
            declareIn environment.dataVars name ⟨type.toValueType, span, false, false⟩ },
        duplicate? environment.dataVars "Variable" name location)
  | .map _ name keyType valueType =>
      ({ environment with
          maps := declareIn environment.maps name
            ⟨keyType.toValueType, valueType.toValueType, span, false, false⟩ },
        duplicate? environment.maps "Map" name location)
  | .trait _ name functions =>
      ({ environment with
          traits := declareIn environment.traits name
            ⟨functions.map TraitFunction.name, span, false⟩ },
        duplicate? environment.traits "Trait" name location)
  | .useTrait _ name _ =>
      ({ environment with traits := declareIn environment.traits name ⟨[], span, true⟩ },
        duplicate? environment.traits "Trait" name location)
  | .fungible _ name _ =>
      ({ environment with
          tokens := declareIn environment.tokens name ⟨true, span, false, false⟩ },
        duplicate? environment.tokens "Token" name location)
  | .nonFungible _ name _ =>
      ({ environment with
          tokens := declareIn environment.tokens name ⟨false, span, false, false⟩ },
        duplicate? environment.tokens "Token" name location)
  | .implTrait _ _ => (environment, none)

/-- The environment of some forms on top of another one, and the errors of repeated definitions. -/
def declareAll (environment : Environment) : List Form → Environment × List Diagnostic
  | [] => (environment, [])
  | form :: rest =>
      let (next, error) := environment.declare form
      let (final, errors) := next.declareAll rest
      (final, error.toList ++ errors)

end Environment

end ContractAudit
