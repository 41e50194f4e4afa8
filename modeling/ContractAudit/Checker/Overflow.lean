import ContractAudit.Checker.Basic

/-!
# Integer overflow

Every addition, subtraction and multiplication can leave the range of integers, whatever bounds were
checked before it.
-/

namespace ContractAudit.Checker

namespace Overflow

def operators : List String := ["+", "-", "*"]

def sample : String := "
;; BAD: No overflow check
(+ balance amount)

;; GOOD: With overflow check
(asserts! (<= amount (- u340282366920938463463374607431768211455 balance)) (err u1))
(+ balance amount)"

def finding (call : NodeInfo × String × List Expr) : Finding where
  message := s!"Potential integer overflow in {call.2.1} operation"
  location := some call.1.span.start
  recommendation :=
    "Add bounds checking before arithmetic operations to prevent overflow/underflow."
  suggestion := some "Use safe arithmetic patterns or add explicit bounds checks."
  codeExample := some sample

end Overflow

def overflow : Checker where
  name := "overflow"
  description := "Arithmetic without a bounds check"
  code := .integerOverflow
  category := "overflow"
  risk := .medium
  cwe := some "CWE-190"
  search := fun audited =>
    .ok (audited.functions.flatMap fun function =>
      (callsNamed function.body Overflow.operators).map Overflow.finding)

end ContractAudit.Checker
