import ContractAudit.Syntax.TypeSpec

/-!
# Value types

Approximate types of contract values. Literals have exact kinds, and whatever cannot be placed
counts as an unsigned number. The types serve to classify uses and mismatches, not to prove
contracts sound. Lists and optional values have one child, responses have two: the type of success
and that of failure.
-/

namespace ContractAudit

/-- The kinds of value type. -/
inductive TypeKind where
  | uint
  | int
  | bool
  | principal
  | buff
  | stringAscii
  | stringUtf8
  | list
  | optional
  | response
  | tuple
  | trait
  | none
deriving DecidableEq, Repr

namespace TypeKind

def all : List TypeKind :=
  [.uint, .int, .bool, .principal, .buff, .stringAscii, .stringUtf8, .list, .optional, .response,
   .tuple, .trait, .none]

def label : TypeKind → String
  | .uint => "uint"
  | .int => "int"
  | .bool => "bool"
  | .principal => "principal"
  | .buff => "buff"
  | .stringAscii => "string-ascii"
  | .stringUtf8 => "string-utf8"
  | .list => "list"
  | .optional => "optional"
  | .response => "response"
  | .tuple => "tuple"
  | .trait => "trait"
  | .none => "none"

def ofLabel? (label : String) : Option TypeKind :=
  all.find? fun kind => kind.label = label

/-- Whether values of the two kinds may stand for each other: `none` fits any optional value. -/
def compatible (x y : TypeKind) : Bool :=
  x = y || (x = .none && y = .optional) || (x = .optional && y = .none)

end TypeKind

/-- A value type. -/
structure ValueType where
  kind : TypeKind
  children : List ValueType
  fields : List (String × ValueType)
  size : Option Int
  /-- The name of a trait. -/
  name : String

/-- The fault of a response type that lacks the component of a number. -/
structure MissingComponent where
  index : Nat
deriving DecidableEq, Repr

def MissingComponent.message (_ : MissingComponent) : String :=
  "tuple index out of range"

namespace ValueType

def ofKind (kind : TypeKind) : ValueType :=
  ⟨kind, [], [], none, ""⟩

/-- Unsigned numbers, and whatever cannot be placed. -/
def uint : ValueType := ofKind .uint

def int : ValueType := ofKind .int

def bool : ValueType := ofKind .bool

def principal : ValueType := ofKind .principal

def absent : ValueType := ofKind .none

def buff (size : Option Int) : ValueType :=
  { ofKind .buff with size := size }

def string (kind : TypeKind) (size : Option Int) : ValueType :=
  { ofKind kind with size := size }

def listOf (element : ValueType) (size : Option Int) : ValueType :=
  { ofKind .list with children := [element], size := size }

def optional (inner : ValueType) : ValueType :=
  { ofKind .optional with children := [inner] }

def response (ok err : ValueType) : ValueType :=
  { ofKind .response with children := [ok, err] }

def tupleOf (fields : List (String × ValueType)) : ValueType :=
  { ofKind .tuple with fields := fields }

instance : Inhabited ValueType :=
  ⟨uint⟩

def element? (type : ValueType) : Option ValueType :=
  match type.kind with
  | .list | .optional => type.children.head?
  | _ => none

/-- A component of a response, which must be there; other types have none. -/
def component (index : Nat) (type : ValueType) : Except MissingComponent (Option ValueType) :=
  match type.kind, type.children[index]? with
  | .response, some component => .ok (some component)
  | .response, none => .error ⟨index⟩
  | _, _ => .ok none

def okType (type : ValueType) : Except MissingComponent (Option ValueType) :=
  type.component 0

def errType (type : ValueType) : Except MissingComponent (Option ValueType) :=
  type.component 1

def compatible (x y : ValueType) : Bool :=
  x.kind.compatible y.kind

mutual

def same : ValueType → ValueType → Bool
  | ⟨kind, children, fields, size, name⟩, ⟨kind', children', fields', size', name'⟩ =>
      kind = kind' && sameList children children' && sameFields fields fields' && size = size' &&
        name = name'

def sameList : List ValueType → List ValueType → Bool
  | [], [] => true
  | type :: rest, type' :: rest' => type.same type' && sameList rest rest'
  | _, _ => false

def sameFields : List (String × ValueType) → List (String × ValueType) → Bool
  | [], [] => true
  | (name, type) :: rest, (name', type') :: rest' =>
      name = name' && type.same type' && sameFields rest rest'
  | _, _ => false

end

/-- The nesting depth down to which types are written out. -/
def maxRenderDepth : Nat := 20

/-- The text of a type by its kind, from the texts of its children and fields. -/
def assemble (kind : TypeKind) (children fields : List String) (size : Option Int) (name : String) :
    Except MissingComponent String :=
  match kind with
  | .list =>
      let inner := children.head?.getD "?"
      match size with
      | some size => .ok s!"(list {size} {inner})"
      | none => .ok s!"(list {inner})"
  | .optional =>
      let inner := children.head?.getD "?"
      .ok s!"(optional {inner})"
  | .response =>
      match children with
      | ok :: err :: _ => .ok s!"(response {ok} {err})"
      | _ => .error ⟨children.length⟩
  | .tuple => .ok ("\x7b" ++ ", ".intercalate fields ++ "\x7d")
  | .buff | .stringAscii | .stringUtf8 =>
      match size with
      | some size => .ok s!"({kind.label} {size})"
      | none => .ok kind.label
  | .trait => .ok (if name.isEmpty then "<trait>" else name)
  | _ => .ok kind.label

/-- The number of children that the text of a kind shows. -/
def shownChildren : TypeKind → Nat
  | .list | .optional => 1
  | .response => 2
  | _ => 0

mutual

def renderAt (depth : Nat) : ValueType → Except MissingComponent String
  | ⟨kind, children, fields, size, name⟩ =>
      if maxRenderDepth < depth then .ok "..."
      else do
        let children ← renderSome (depth + 1) (shownChildren kind) children
        let fields ← if kind = .tuple then renderFields (depth + 1) fields else pure []
        assemble kind children fields size name

def renderSome (depth : Nat) : Nat → List ValueType → Except MissingComponent (List String)
  | 0, _ => .ok []
  | _ + 1, [] => .ok []
  | count + 1, type :: rest => do
      let first ← type.renderAt depth
      let others ← renderSome depth count rest
      pure (first :: others)

def renderFields (depth : Nat) : List (String × ValueType) → Except MissingComponent (List String)
  | [] => .ok []
  | (name, type) :: rest => do
      let first ← type.renderAt depth
      let others ← renderFields depth rest
      pure ((name ++ ": " ++ first) :: others)

end

/-- The text of a type; a response must have both components to have one. -/
def render (type : ValueType) : Except MissingComponent String :=
  type.renderAt 0

end ValueType

namespace TypeSpec

def firstSize? : List TypeParam → Option Int
  | [] => none
  | .size value :: _ => some value
  | .type _ :: rest => firstSize? rest

/-- The type that a name denotes with a size bound and component types. -/
def resolve (name : String) (size : Option Int) (inner : List ValueType) : ValueType :=
  match name, inner with
  | "uint", _ => .uint
  | "int", _ => .int
  | "bool", _ => .bool
  | "principal", _ => .principal
  | "buff", _ => .buff size
  | "string-ascii", _ => .string .stringAscii size
  | "string-utf8", _ => .string .stringUtf8 size
  | "list", element :: _ => .listOf element size
  | "optional", element :: _ => .optional element
  | "response", ok :: err :: _ => .response ok err
  | _, _ =>
      if "<".isPrefixOf name && name.toList.getLast? = some '>' then
        { ValueType.ofKind .trait with name := name }
      else .uint

mutual

/-- The value type that a declared type denotes. Unknown names count as unsigned numbers. -/
def toValueType : TypeSpec → ValueType
  | .tuple _ fields => .tupleOf (fieldTypes fields)
  | .named _ name params => resolve name (firstSize? params) (componentTypes params)

def fieldTypes : List (String × TypeSpec) → List (String × ValueType)
  | [] => []
  | (name, spec) :: rest => (name, spec.toValueType) :: fieldTypes rest

def componentTypes : List TypeParam → List ValueType
  | [] => []
  | .size _ :: rest => componentTypes rest
  | .type spec :: rest => spec.toValueType :: componentTypes rest

end

end TypeSpec

end ContractAudit
