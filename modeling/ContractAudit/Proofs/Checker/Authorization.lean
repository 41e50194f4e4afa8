import ContractAudit.Proofs.Checker.Sites
import ContractAudit.Proofs.Text.TextSet

/-!
# The rule of authorization

The checker takes the writes of a function from what the analysis has recorded for its body, and
looks for the checks of the caller in the body itself. For a parsed contract both see the same
calls, those at any depth of the body, so that `FunctionDef.Unauthorized` states the rule in terms
of the tree alone. The identifiers of the configuration occur in it once, under a negation.
-/

namespace ContractAudit

open Text Checker List LooseText Builtin

/-- That an identifier with one of some names stands in an expression, at any depth. -/
def Expr.Mentions (identifiers : List LooseText) (expr : Expr) : Prop :=
  ∃ info name, (Node.expr expr).Within (.expr (.identifier info name)) ∧
    ofString name ∈ identifiers

/-- That a public function writes state, and no assertion or comparison in it mentions one of some
identifiers. -/
structure FunctionDef.Unauthorized (identifiers : List LooseText) (f : FunctionDef) : Prop where
  isPublic : f.isPublic = true
  writes : ∃ info callee args, CallWithin f.body info callee args ∧
    callee ∈ ["var-set", "map-set", "map-insert", "map-delete"]
  unchecked : ∀ info callee args, CallWithin f.body info callee args →
    callee ∈ ["asserts!", "is-eq"] → ∀ arg ∈ args, ¬arg.Mentions identifiers

namespace Checker.Authorization

variable {identifiers wider : List LooseText} {f : FunctionDef}

theorem mentions_iff {expr : Expr} : mentions (identifiers.filterMap toString?) expr = true ↔
      expr.Mentions identifiers := by
  have hname (node : Node) (name : String) : identifierName? node = some name ↔
      ∃ info, node = .expr (.identifier info name) := by
    unfold identifierName?
    split <;> simp_all
  rw [mentions, any_eq_true]
  simp only [contains_iff_mem, mem_filterMap_toString?]
  constructor
  · rintro ⟨name, hmem, hlisted⟩
    obtain ⟨node, hnode, hidentifier⟩ := mem_filterMap.mp hmem
    obtain ⟨info, rfl⟩ := (hname node name).mp hidentifier
    exact ⟨info, name, Node.mem_walk_expr.mp hnode, hlisted⟩
  · rintro ⟨info, name, hwithin, hlisted⟩
    exact ⟨name, mem_filterMap.mpr ⟨_, Node.mem_walk_expr.mpr hwithin, rfl⟩, hlisted⟩

theorem isChecked_eq_false : isChecked (identifiers.filterMap toString?) f = false ↔
      ∀ info callee args, CallWithin f.body info callee args → callee ∈ checks →
        ∀ arg ∈ args, ¬arg.Mentions identifiers := by
  rw [isChecked, any_eq_false]
  constructor
  · intro h info callee args hcall hchecks arg harg hmentions
    exact h _ (mem_callsNamed.mpr ⟨hcall, hchecks⟩)
      (any_eq_true.mpr ⟨arg, harg, mentions_iff.mpr hmentions⟩)
  · rintro h ⟨info, callee, args⟩ hcall hany
    obtain ⟨hwithin, hchecks⟩ := mem_callsNamed.mp hcall
    obtain ⟨arg, harg, hmentions⟩ := any_eq_true.mp hany
    exact h info callee args hwithin hchecks arg harg (mentions_iff.mp hmentions)

/-- What the analysis records of a function decides the rule. -/
theorem unauthorized_iff : f.Unauthorized identifiers ↔ (f.isPublic &&
    ((Expr.callsList f.body).map Facts.CallSite.info).any (stateWrites.contains ·.name) &&
    !isChecked (identifiers.filterMap toString?) f) = true := by
  have hwrites : ((Expr.callsList f.body).map Facts.CallSite.info).any
      (stateWrites.contains ·.name) = true ↔ ∃ info callee args,
        CallWithin f.body info callee args ∧ callee ∈ stateWrites := by
    rw [any_callsList]
    simp only [contains_iff_mem]
    rfl
  rw [Bool.and_eq_true, Bool.and_eq_true, hwrites, Bool.not_eq_true', isChecked_eq_false]
  exact ⟨fun h => ⟨⟨h.isPublic, h.writes⟩, h.unchecked⟩, fun h => ⟨h.1.1, h.1.2, h.2⟩⟩

instance : Decidable (f.Unauthorized identifiers) :=
  decidable_of_iff _ unauthorized_iff.symm

theorem unauthorized_antitone (h : identifiers ⊆ wider) (hf : f.Unauthorized wider) :
    f.Unauthorized identifiers := by
  refine ⟨hf.isPublic, hf.writes, fun info callee args hcall hchecks arg harg hmentions => ?_⟩
  obtain ⟨inner, name, hwithin, hlisted⟩ := hmentions
  exact hf.unchecked info callee args hcall hchecks arg harg ⟨inner, name, hwithin, h hlisted⟩

theorem flagged_eq {contract : Contract} {audited : Audited}
    (hnumbers : (contract.postorder.map (·.info.id)).Nodup)
    (hsemantic : audited.semantic = analyzeContract contract) :
    flagged audited = contract.functions.filter
      fun f => decide (f.Unauthorized audited.config.authIdentifiers.texts) := by
  rw [flagged, Audited.functions, hsemantic]
  refine filter_congr fun f hf => ?_
  have hform := Contract.mem_functions.mp hf
  rw [Bool.eq_iff_iff, decide_eq_true_eq, unauthorized_iff, factsOf?_analyzeContract hnumbers hform,
    Option.any_some, functionFacts, callsIn_analyzeContract hnumbers hform]

end Checker.Authorization

/-- Where nothing is silenced, the checker reports exactly the public functions that write state
without a check of their caller, each at its place and in their order. Other things being equal,
what it reports with more identifiers it reports with fewer. -/
theorem authorization_reports_exactly {tokens : List Token} {result : ParseResult}
    {audited : Audited} (hparse : parseTokens tokens = .ok result)
    (hsemantic : audited.semantic = analyzeContract result.contract)
    (hsilent : audited.suppressions = .none) :
    authorization.run audited =
        (result.contract.functions.filter
          fun f => decide (f.Unauthorized audited.config.authIdentifiers.texts)).map
          (fun f => authorization.issue (Authorization.finding f)) ∧
      (∀ f, (authorization.issue (Authorization.finding f)).location = some f.location) ∧
      ∀ wider : Audited, wider.semantic = audited.semantic → wider.suppressions = .none →
        audited.config.authIdentifiers.texts ⊆ wider.config.authIdentifiers.texts →
        (authorization.run wider).Sublist (authorization.run audited) := by
  have hnumbers := (parseTokens_made hparse).1
  have hrun {other : Audited} (hother : other.semantic = analyzeContract result.contract)
      (hsilent : other.suppressions = .none) : authorization.run other =
        (result.contract.functions.filter
          fun f => decide (f.Unauthorized other.config.authIdentifiers.texts)).map
          (fun f => authorization.issue (Authorization.finding f)) := by
    rw [run_of_unsilenced rfl hsilent, Authorization.flagged_eq hnumbers hother, map_map]
    rfl
  refine ⟨hrun hsemantic hsilent, fun f => rfl, fun wider hwider hsilent' hsubset => ?_⟩
  rw [hrun hsemantic hsilent, hrun (hwider.trans hsemantic) hsilent']
  refine (monotone_filter_right _ fun f hf => ?_).map _
  exact decide_eq_true (Authorization.unauthorized_antitone hsubset (of_decide_eq_true hf))

def settings : String :=
  "(define-data-var fee uint u0) (define-public (open) (ok (var-set fee u1))) " ++
    "(define-public (owned) (begin (asserts! (is-eq tx-sender contract-owner) (err u1)) " ++
    "(ok (var-set fee u2)))) (define-public (kept) " ++
    "(if (is-eq (get who admin) tx-origin) (ok (var-set fee u3)) (err u2)))"

theorem authorization_reports_exactly_settings : ∃ result, parse settings = .ok result ∧
      (authorization.run ⟨analyzeContract result.contract, .empty, .default, .none⟩).map
        Issue.message = ["Public function 'open' modifies state without authorization checks",
          "Public function 'kept' modifies state without authorization checks"] ∧
      (authorization.run ⟨analyzeContract result.contract, .empty,
        { Config.default with
          authIdentifiers := Config.default.authIdentifiers.insert "admin" }, .none⟩).Sublist
      (authorization.run ⟨analyzeContract result.contract, .empty, .default, .none⟩) := by
  obtain ⟨result, hparse, hnames⟩ : ∃ result, parse settings = .ok result ∧
      (result.contract.functions.filter fun f =>
        decide (f.Unauthorized Config.default.authIdentifiers.texts)).map FunctionDef.name =
          ["open", "kept"] :=
    exists_parse (append_eq_ofList (append_eq_ofList (append_eq_ofList rfl rfl) rfl) rfl)
      (by decide +kernel)
  have hexact := @authorization_reports_exactly _ result
    ⟨analyzeContract result.contract, .empty, .default, .none⟩ hparse rfl rfl
  refine ⟨result, hparse, ?_, hexact.2.2 _ rfl rfl fun _ hmem => TextSet.mem_place.mpr (.inr hmem)⟩
  rw [hexact.1, map_map]
  show List.map ((fun name =>
    s!"Public function '{name}' modifies state without authorization checks") ∘
      FunctionDef.name) _ = _
  rw [← map_map, hnames]
  rfl

end ContractAudit
