import ContractAudit.Assessment
import ContractAudit.Json.Write

/-!
# The JSON report

A report for other programs.
-/

namespace ContractAudit.Report

def documentJson (file : String) (assessment : Assessment) (errors warnings : List Diagnostic) :
    Json :=
  .object <|
    [("contract", .string file), ("success", .bool errors.isEmpty),
     ("errors", .array (errors.map Diagnostic.toJson)),
     ("warnings", .array (warnings.map Diagnostic.toJson))] ++ assessment.toFields

def document (file : String) (assessment : Assessment) (errors warnings : List Diagnostic)
    (indent : Option Nat) : String :=
  (documentJson file assessment errors warnings).write indent

end ContractAudit.Report
