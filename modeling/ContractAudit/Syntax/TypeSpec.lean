import ContractAudit.Source.Location

/-!
# Declared types

A type as it is written in a contract: a tuple type with named fields, or a name with parameters,
which are size bounds and types in any mix. A type without parameters is its bare name.
-/

namespace ContractAudit

mutual

/-- A type as written in a contract. -/
inductive TypeSpec where
  /-- A named type, applied to parameters if there are any. -/
  | named (span : Span) (name : String) (params : List TypeParam)
  | tuple (span : Span) (fields : List (String × TypeSpec))

/-- A parameter of a named type. -/
inductive TypeParam where
  | size (value : Int)
  | type (spec : TypeSpec)

end

deriving instance Inhabited for TypeSpec

namespace TypeSpec

/-- The text a type was written as. -/
def span : TypeSpec → Span
  | .named span _ _ => span
  | .tuple span _ => span

def name : TypeSpec → String
  | .named _ name _ => name
  | .tuple _ _ => "tuple"

def params : TypeSpec → List TypeParam
  | .named _ _ params => params
  | .tuple _ _ => []

def fields : TypeSpec → List (String × TypeSpec)
  | .named _ _ _ => []
  | .tuple _ fields => fields

/-- The type that a bare word denotes: `tuple` by itself is the tuple type without fields. -/
def ofWord (span : Span) (word : String) : TypeSpec :=
  if word = "tuple" then .tuple span [] else .named span word []

mutual

def pretty : TypeSpec → String
  | .tuple _ fields => "\x7b" ++ ", ".intercalate (prettyFields fields) ++ "\x7d"
  | .named _ name params =>
      if params.isEmpty then name
      else "(" ++ name ++ " " ++ " ".intercalate (prettyParams params) ++ ")"

def prettyFields : List (String × TypeSpec) → List String
  | [] => []
  | (name, spec) :: rest => (name ++ ": " ++ spec.pretty) :: prettyFields rest

def prettyParams : List TypeParam → List String
  | [] => []
  | .size value :: rest => toString value :: prettyParams rest
  | .type spec :: rest => spec.pretty :: prettyParams rest

end

mutual

/-- Whether two types are written alike at the same place. -/
def same : TypeSpec → TypeSpec → Bool
  | .named span name params, .named span' name' params' =>
      span = span' && name = name' && sameParams params params'
  | .tuple span fields, .tuple span' fields' => span = span' && sameFields fields fields'
  | _, _ => false

def sameFields : List (String × TypeSpec) → List (String × TypeSpec) → Bool
  | [], [] => true
  | (name, spec) :: rest, (name', spec') :: rest' =>
      name = name' && spec.same spec' && sameFields rest rest'
  | _, _ => false

def sameParams : List TypeParam → List TypeParam → Bool
  | [], [] => true
  | .size value :: rest, .size value' :: rest' => value = value' && sameParams rest rest'
  | .type spec :: rest, .type spec' :: rest' => spec.same spec' && sameParams rest rest'
  | _, _ => false

end

end TypeSpec

end ContractAudit
