import ContractAudit.Main
import ContractAudit.Proofs.Parse.Position
import ContractAudit.Proofs.Suppression.Comments
import ContractAudit.Proofs.DataFlow.SharedNames
import ContractAudit.Proofs.Semantic.CallTypes
import ContractAudit.Proofs.Checker.Reentrancy
import ContractAudit.Proofs.Semantic.DefinitionOrder
import ContractAudit.Proofs.Assessment.Layout
import ContractAudit.Proofs.Parse.MatchArms
import ContractAudit.Proofs.Parse.Accounted
import ContractAudit.Proofs.Parse.Spans
import ContractAudit.Proofs.Parse.NestingLimit
import ContractAudit.Proofs.Parse.Recovery
import ContractAudit.Proofs.CallGraph.Recursion
import ContractAudit.Proofs.CallGraph.CallRelation
import ContractAudit.Proofs.Semantic.FirstDefinitions
import ContractAudit.Proofs.Checker.Authorization
import ContractAudit.Proofs.Assessment.UnusedReports
import ContractAudit.Proofs.Config.Failures
import ContractAudit.Proofs.Token.Respacing
import ContractAudit.Proofs.CommandLine.Undecodable
import ContractAudit.Proofs.Config.RoundTrip
import ContractAudit.Proofs.CallGraph.Drawing
import ContractAudit.Proofs.Parse.TypeText
