import ContractAudit.Checker.Basic

/-!
# Reentrancy

A function that writes state after it has handed control to another contract can be entered again
before the write. Calls count in pre-order, and transfers of assets hand over control too.
-/

namespace ContractAudit.Checker

namespace Reentrancy

def handsOver (site : Facts.CallSite) : Bool :=
  site.info.isExternal || Builtin.transfers.contains site.info.name

def writesState (site : Facts.CallSite) : Bool :=
  Builtin.stateWrites.contains site.info.name

/-- Whether one of the calls is a write behind a call that hands over control, where there may have
been one of those before. -/
def writesAfter (handedOver : Bool) : List Facts.CallSite → Bool
  | [] => false
  | site :: rest =>
      if handedOver && writesState site then true
      else writesAfter (handedOver || handsOver site) rest

def sample : String := "
;; BAD: External call before state update
(define-public (withdraw (amount uint))
  (begin
    (unwrap! (stx-transfer? amount tx-sender recipient) (err u1))
    (map-set balances tx-sender (- (get-balance tx-sender) amount))
    (ok true)
  )
)

;; GOOD: State update before external call
(define-public (withdraw (amount uint))
  (begin
    (map-set balances tx-sender (- (get-balance tx-sender) amount))
    (unwrap! (stx-transfer? amount tx-sender recipient) (err u1))
    (ok true)
  )
)"

def finding (function : FunctionDef) : Finding where
  message := s!"Function '{function.name}' may be vulnerable to reentrancy attacks"
  location := some function.location
  recommendation :=
    "Use the checks-effects-interactions pattern: perform all checks " ++
    "first, then update state, then make external calls."
  suggestion := some "Move state updates before external calls or use reentrancy guards."
  codeExample := some sample

def flagged (audited : Audited) : List FunctionDef :=
  audited.functions.filter fun function =>
    writesAfter false (audited.semantic.facts.callsIn function.body)

end Reentrancy

def reentrancy : Checker where
  name := "reentrancy"
  description := "State modification after an external interaction"
  code := .reentrancy
  category := "reentrancy"
  risk := .high
  cwe := some "CWE-841"
  search := fun audited => .ok ((Reentrancy.flagged audited).map Reentrancy.finding)

end ContractAudit.Checker
