import ContractAudit.Source.Location

/-!
# Expressions and patterns

The expressions of contract bodies and the patterns of match arms. Every node of the tree carries
its span and a number that identifies it, under which analyses record what they find out about it.
-/

namespace ContractAudit

/-- The place and the number of a syntax node. -/
structure NodeInfo where
  span : Span
  id : Nat
deriving DecidableEq, Repr, Inhabited

/-- The character sets of string literals. -/
inductive StringEncoding where
  | ascii
  | utf8
deriving DecidableEq, Repr

def StringEncoding.label : StringEncoding → String
  | .ascii => "ascii"
  | .utf8 => "utf8"

/-- The value of a literal. -/
inductive Literal where
  | uint (value : Int)
  | int (value : Int)
  | bool (value : Bool)
  | string (value : String) (encoding : StringEncoding)
  /-- A byte buffer, by its hexadecimal digits. -/
  | buffer (digits : String)
  /-- A principal, with the name of a contract if it is one. The address of a contract that is
  deployed together with this one is empty. -/
  | principal (address : String) (contract : Option String)
deriving DecidableEq, Repr

namespace Literal

/-- The number of bytes that hexadecimal digits fill. -/
def bufferSize (digits : String) : Nat :=
  (digits.length + 1) / 2

def principalText (address : String) (contract : Option String) : String :=
  match contract with
  | none => "'" ++ address
  | some name => "'" ++ address ++ "." ++ name

end Literal

/-- Whether a name refers to another contract. -/
def isDotted (name : String) : Bool :=
  name.toList.contains '.'

/-- The constructors that a pattern may look through. -/
inductive Wrapper where
  | ok
  | err
  | some
deriving DecidableEq, Repr

namespace Wrapper

def label : Wrapper → String
  | .ok => "ok"
  | .err => "err"
  | .some => "some"

def ofLabel? (word : String) : Option Wrapper :=
  [Wrapper.ok, .err, .some].find? fun wrapper => wrapper.label = word

end Wrapper

/-- A pattern of a match arm. -/
inductive Pattern where
  /-- A constructor, with a pattern for what it holds. -/
  | wrapper (info : NodeInfo) (kind : Wrapper) (inner : Option Pattern)
  /-- The absent optional value. -/
  | none (info : NodeInfo)
  /-- A name for the matched value. -/
  | identifier (info : NodeInfo) (name : String)
  /-- A literal, which is a node of its own. -/
  | literal (info : NodeInfo) (literalInfo : NodeInfo) (value : Literal)

namespace Pattern

def info : Pattern → NodeInfo
  | .wrapper info _ _ => info
  | .none info => info
  | .identifier info _ => info
  | .literal info _ _ => info

/-- The names a pattern introduces: at most one, however deep it stands. -/
def boundNames : Pattern → List String
  | .wrapper _ _ (some inner) => inner.boundNames
  | .identifier _ name => [name]
  | _ => []

def same : Pattern → Pattern → Bool
  | .wrapper info kind (some inner), .wrapper info' kind' (some inner') =>
      info.span = info'.span && kind = kind' && inner.same inner'
  | .wrapper info kind .none, .wrapper info' kind' .none =>
      info.span = info'.span && kind = kind'
  | .none info, .none info' => info.span = info'.span
  | .identifier info name, .identifier info' name' => info.span = info'.span && name = name'
  | .literal info inner value, .literal info' inner' value' =>
      info.span = info'.span && inner.span = inner'.span && value = value'
  | _, _ => false

end Pattern

/-- A name given to something: a binding of a `let` or a field of a tuple. -/
structure Named (α : Type) where
  info : NodeInfo
  name : String
  value : α

/-- An arm of a match: a pattern and its expressions, of which the grammar has one at most. -/
structure Arm (α : Type) where
  info : NodeInfo
  pattern : Pattern
  body : List α

/-- An expression. -/
inductive Expr where
  | literal (info : NodeInfo) (value : Literal)
  | identifier (info : NodeInfo) (name : String)
  /-- A call of a builtin, of a function of the contract or, by a dotted name, of another one. -/
  | call (info : NodeInfo) (callee : String) (args : List Expr)
  | letIn (info : NodeInfo) (bindings : List (Named Expr)) (body : List Expr)
  | block (info : NodeInfo) (body : List Expr)
  | conditional (info : NodeInfo) (condition thenBranch : Expr) (elseBranch : Option Expr)
  | matchOn (info : NodeInfo) (subject : Expr) (arms : List (Arm Expr))
  | list (info : NodeInfo) (elements : List Expr)
  | tuple (info : NodeInfo) (fields : List (Named Expr))

namespace Expr

def info : Expr → NodeInfo
  | .literal info _ => info
  | .identifier info _ => info
  | .call info _ _ => info
  | .letIn info _ _ => info
  | .block info _ => info
  | .conditional info _ _ _ => info
  | .matchOn info _ _ => info
  | .list info _ => info
  | .tuple info _ => info

def location (expr : Expr) : Location :=
  expr.info.span.start

mutual

/-- Whether two expressions are the same up to node numbers. -/
def same : Expr → Expr → Bool
  | .literal info value, .literal info' value' => info.span = info'.span && value = value'
  | .identifier info name, .identifier info' name' => info.span = info'.span && name = name'
  | .call info callee args, .call info' callee' args' =>
      info.span = info'.span && callee = callee' && sameList args args'
  | .letIn info bindings body, .letIn info' bindings' body' =>
      info.span = info'.span && sameNamed bindings bindings' && sameList body body'
  | .block info body, .block info' body' => info.span = info'.span && sameList body body'
  | .conditional info condition yes (some no), .conditional info' condition' yes' (some no') =>
      info.span = info'.span && condition.same condition' && yes.same yes' && no.same no'
  | .conditional info condition yes none, .conditional info' condition' yes' none =>
      info.span = info'.span && condition.same condition' && yes.same yes'
  | .matchOn info subject arms, .matchOn info' subject' arms' =>
      info.span = info'.span && subject.same subject' && sameArms arms arms'
  | .list info elements, .list info' elements' =>
      info.span = info'.span && sameList elements elements'
  | .tuple info fields, .tuple info' fields' =>
      info.span = info'.span && sameNamed fields fields'
  | _, _ => false

def sameList : List Expr → List Expr → Bool
  | [], [] => true
  | expr :: rest, expr' :: rest' => expr.same expr' && sameList rest rest'
  | _, _ => false

def sameNamed : List (Named Expr) → List (Named Expr) → Bool
  | [], [] => true
  | ⟨info, name, value⟩ :: rest, ⟨info', name', value'⟩ :: rest' =>
      info.span = info'.span && name = name' && value.same value' && sameNamed rest rest'
  | _, _ => false

def sameArms : List (Arm Expr) → List (Arm Expr) → Bool
  | [], [] => true
  | ⟨info, pattern, body⟩ :: rest, ⟨info', pattern', body'⟩ :: rest' =>
      info.span = info'.span && pattern.same pattern' && sameList body body' && sameArms rest rest'
  | _, _ => false

end

end Expr

end ContractAudit
