import ContractAudit.Checker.Basic

/-!
# Unsafe operations

Unwrapping ends the transaction if there is nothing to unwrap, and division fails on zero.
-/

namespace ContractAudit.Checker

namespace UnsafeOperation

def operations : List String := ["unwrap!", "unwrap-panic", "/"]

def finding (call : NodeInfo × String × List Expr) : Finding :=
  if call.2.1 = "/" then
    { message := "Unsafe operation: division"
      location := some call.1.span.start
      recommendation := "Check for division by zero before performing division."
      suggestion := some "Add assertions to ensure the divisor is not zero." }
  else
    { message := s!"Unsafe operation: {call.2.1}"
      location := some call.1.span.start
      recommendation := "Use proper error handling instead of unwrap! or unwrap-panic."
      suggestion :=
        some "Consider using match expressions or asserts! with proper error handling." }

end UnsafeOperation

def unsafeOperation : Checker where
  name := "unsafe-operation"
  description := "Panicking unwraps and unchecked division"
  code := .unsafeOperation
  category := "unsafe-operation"
  risk := .medium
  search := fun audited =>
    .ok (audited.functions.flatMap fun function =>
      (callsNamed function.body UnsafeOperation.operations).map UnsafeOperation.finding)

end ContractAudit.Checker
