import ContractAudit.Checker.Basic

/-!
# Missing authorization

A public function that changes state has to check who calls it: some assertion or comparison in it
mentions an identifier of the caller or the owner.
-/

namespace ContractAudit.Checker

namespace Authorization

def checks : List String := ["asserts!", "is-eq"]

def identifierName? : Node → Option String
  | .expr (.identifier _ name) => some name
  | _ => none

def mentions (identifiers : List String) (expr : Expr) : Bool :=
  ((Node.expr expr).walk.filterMap identifierName?).any identifiers.contains

def isChecked (identifiers : List String) (function : FunctionDef) : Bool :=
  (callsNamed function.body checks).any fun call => call.2.2.any (mentions identifiers)

def sample : String := "
;; BAD: No authorization check
(define-public (admin-function)
  (begin
    (var-set important-config u42)
    (ok true)
  )
)

;; GOOD: With authorization check
(define-public (admin-function)
  (begin
    (asserts! (is-eq tx-sender contract-owner) (err u401))
    (var-set important-config u42)
    (ok true)
  )
)"

def finding (function : FunctionDef) : Finding where
  message := s!"Public function '{function.name}' modifies state without authorization checks"
  location := some function.location
  recommendation :=
    "Add proper authorization checks to ensure only authorized users can modify state."
  suggestion :=
    some "Use tx-sender verification, role-based access control, or ownership patterns."
  codeExample := some sample

/-- The public functions that change state and do not check their caller. -/
def flagged (audited : Audited) : List FunctionDef :=
  audited.functions.filter fun function =>
    function.isPublic &&
    (audited.semantic.factsOf? function).any FunctionFacts.modifiesState &&
    !isChecked (audited.config.authIdentifiers.texts.filterMap Text.LooseText.toString?) function

end Authorization

def authorization : Checker where
  name := "authorization"
  description := "Public state change without an authorization check"
  code := .missingAuthorization
  category := "authorization"
  risk := .high
  cwe := some "CWE-862"
  search := fun audited => .ok ((Authorization.flagged audited).map Authorization.finding)

end ContractAudit.Checker
