import ContractAudit.Checker.Reentrancy
import ContractAudit.Proofs.Semantic.Calls

/-!
# The rule of reentrancy

The checker looks at the calls that the analysis has recorded for a body. Each call of a parsed
contract is recorded under its own node, so the checker sees the calls among the nodes of the body,
in pre-order, and flags a function exactly when one node of its body hands over control and a later
one writes state.
-/

namespace ContractAudit

/-- Whether a node is a call that hands over control: into another contract, or with a transfer. -/
def Node.handsOver : Node → Bool
  | .expr (.call _ callee _) => callee = "contract-call?" || isDotted callee ||
    ["stx-transfer?", "ft-transfer?", "nft-transfer?"].contains callee
  | _ => false

/-- Whether a node is a call that writes a data variable or a map. -/
def Node.writesState : Node → Bool
  | .expr (.call _ callee _) => ["var-set", "map-set", "map-insert", "map-delete"].contains callee
  | _ => false

/-- A node of a body hands over control, and a later one in pre-order writes state. -/
def WritesAfterInteraction (body : List Expr) : Prop :=
  ∃ i j : Fin (walkBody body).length, i < j ∧
    ((walkBody body).get i).handsOver = true ∧ ((walkBody body).get j).writesState = true

instance (body : List Expr) : Decidable (WritesAfterInteraction body) :=
  inferInstanceAs (Decidable (∃ _ _ : Fin (walkBody body).length, _))

namespace Checker.Reentrancy

variable {node : Node} (nodes : List Node)

theorem eq_of_callSite? {site : Facts.CallSite} (h : node.callSite? = some site) :
    handsOver site = node.handsOver ∧ writesState site = node.writesState := by
  obtain ⟨info, callee, args, rfl, rfl⟩ := Node.callSite?_eq_some.mp h
  exact ⟨rfl, rfl⟩

theorem quiet_of_callSite? (h : node.callSite? = none) :
    node.handsOver = false ∧ node.writesState = false := by
  cases node with
  | expr expr => cases expr <;> first | exact ⟨rfl, rfl⟩ | cases h
  | _ => exact ⟨rfl, rfl⟩

/-- The loop over the calls misses no pair of nodes: it finds nothing only where no node writes that
comes behind one that hands over control, be it among the nodes or before them. -/
theorem writesAfter_callSites (handedOver : Bool) :
    writesAfter handedOver (callSites nodes) = false ↔
      (handedOver = true → ∀ node ∈ nodes, node.writesState = false) ∧
      nodes.Pairwise fun first later => ¬(first.handsOver = true ∧ later.writesState = true) := by
  induction nodes generalizing handedOver with
  | nil => simp [callSites, writesAfter]
  | cons node rest ih =>
      rw [List.pairwise_cons, List.forall_mem_cons]
      cases hsite : node.callSite? with
      | none =>
          obtain ⟨hquiet, hkept⟩ := quiet_of_callSite? hsite
          simp [callSites_cons hsite, ih, hquiet, hkept]
      | some site =>
          have hsites : callSites (node :: rest) = site :: callSites rest :=
            List.filterMap_cons_some hsite
          obtain ⟨hhands, hwrites⟩ := eq_of_callSite? hsite
          rw [hsites, writesAfter, hhands, hwrites]
          cases handedOver <;> cases node.handsOver <;> cases node.writesState <;> simp [ih]

theorem writesAfter_callsList (body : List Expr) :
    writesAfter false (Expr.callsList body) = decide (WritesAfterInteraction body) := by
  rw [← Expr.callSites_walkBody, Bool.eq_iff_iff, decide_eq_true_eq, ← Bool.not_eq_false,
    writesAfter_callSites, List.pairwise_iff_get]
  simp only [Bool.false_eq_true, false_implies, true_and, not_forall, not_not, exists_prop]
  rfl

end Checker.Reentrancy

open Checker

/-- Where nothing is silenced, the checker reports exactly the functions in whose body a write
comes after an interaction, each at its place and in their order. -/
theorem reentrancy_reports_exactly {tokens : List Token} {result : ParseResult} {audited : Audited}
    (hparse : parseTokens tokens = .ok result)
    (hsemantic : audited.semantic = analyzeContract result.contract)
    (hsilent : audited.suppressions = .none) :
    reentrancy.run audited =
        (result.contract.functions.filter fun f => decide (WritesAfterInteraction f.body)).map
          (fun f => reentrancy.issue (Reentrancy.finding f)) ∧
      ∀ f, (reentrancy.issue (Reentrancy.finding f)).location = some f.location := by
  have hnumbers := (parseTokens_made hparse).1
  have hflagged : Reentrancy.flagged audited =
      result.contract.functions.filter fun f => decide (WritesAfterInteraction f.body) := by
    rw [Reentrancy.flagged, Audited.functions, hsemantic]
    refine List.filter_congr fun f hf => ?_
    rw [callsIn_analyzeContract hnumbers (Contract.mem_functions.mp hf),
      Reentrancy.writesAfter_callsList]
  refine ⟨?_, fun f => rfl⟩
  rw [run, hsilent]
  show List.filter (fun issue => !Suppressions.none.isSuppressed issue.code issue.location)
    ((List.map Reentrancy.finding (Reentrancy.flagged audited)).map reentrancy.issue) = _
  rw [hflagged, List.map_map, List.filter_eq_self.mpr]
  · rfl
  · intro issue _
    cases hlocation : issue.location <;>
      simp [Suppressions.isSuppressed, Suppressions.silences, Suppressions.none, Table.get?,
        Table.empty]

def withdrawals : String :=
  "(define-map balances principal uint) (define-public (pay (n uint)) " ++
    "(let ((sent (stx-transfer? n tx-sender tx-sender))) " ++
    "(if true (ok (map-set balances tx-sender n)) sent))) (define-public (book (n uint)) " ++
    "(begin (map-set balances tx-sender n) (stx-transfer? n tx-sender tx-sender)))"

theorem reentrancy_reports_exactly_withdrawals : ∃ result, parse withdrawals = .ok result ∧
      (reentrancy.run ⟨analyzeContract result.contract, .empty, .default,
        .none⟩).map Issue.message =
        ["Function 'pay' may be vulnerable to reentrancy attacks"] := by
  obtain ⟨result, hparse, hnames⟩ : ∃ result, parse withdrawals = .ok result ∧
      (result.contract.functions.filter fun f => decide (WritesAfterInteraction f.body)).map
        FunctionDef.name = ["pay"] :=
    exists_parse (append_eq_ofList (append_eq_ofList (append_eq_ofList rfl rfl) rfl) rfl)
      (by decide +kernel)
  refine ⟨result, hparse, ?_⟩
  rw [(reentrancy_reports_exactly hparse rfl rfl).1, List.map_map]
  show List.map ((fun name => s!"Function '{name}' may be vulnerable to reentrancy attacks") ∘
    FunctionDef.name) _ = _
  rw [← List.map_map, hnames]
  rfl

end ContractAudit
