import ContractAudit.ValueType

/-!
# Lexical scopes

A scope is a chain of frames of local bindings, the innermost first. A name refers to its binding in
the innermost frame that has one.
-/

namespace ContractAudit

/-- The bindings of one frame, the latest first. -/
abbrev Frame := List (String × ValueType)

/-- A frame and the frames around it. -/
structure Scope where
  bindings : Frame
  outer : List Frame

namespace Scope

def empty : Scope :=
  ⟨[], []⟩

def child (scope : Scope) : Scope :=
  ⟨[], scope.bindings :: scope.outer⟩

/-- The scope around the innermost frame; the outermost scope is its own. -/
def parent (scope : Scope) : Scope :=
  match scope.outer with
  | [] => scope
  | frame :: rest => ⟨frame, rest⟩

def define (scope : Scope) (name : String) (type : ValueType) : Scope :=
  { scope with bindings := (name, type) :: scope.bindings }

def lookup? (scope : Scope) (name : String) : Option ValueType :=
  (scope.bindings :: scope.outer).findSome? (List.lookup name)

end Scope

end ContractAudit
