import ContractAudit.Proofs.Semantic.Resolution

/-!
# What an analysis marks

The analysis of a contract marks what the contract uses of the names that it declares, and records
which definitions refer to which functions. Up to the types that are inferred it does nothing else
to the environment, and apart from types it only warns about what is never used.
-/

namespace ContractAudit

open List Environment

/-- The uses that a contract makes of the names that it declares. -/
def Contract.uses (contract : Contract) : List Use :=
  contract.body.flatMap (Form.uses contract.declared)

namespace Contract

def declaredAnalysis (contract : Contract) : Analysis :=
  ⟨(empty.declareAll contract.body).1, .empty,
    (empty.declareAll contract.body).2, [], [], .empty⟩

def visitedAnalysis (contract : Contract) : Analysis :=
  (Analyzer.visitForms contract.body contract.declaredAnalysis).2

theorem visitedAnalysis_marked (contract : Contract) :
    Marked contract.uses contract.declaredAnalysis contract.visitedAnalysis :=
  (Analyzer.visitForms_noted contract.body contract.declaredAnalysis).marked

end Contract

section Contracts

variable {contract : Contract} {function owner : String}

theorem environment_analyzeContract :
    (analyzeContract contract).environment = contract.visitedAnalysis.environment := rfl

theorem references_analyzeContract :
    (analyzeContract contract).facts.references = contract.visitedAnalysis.facts.references := rfl

theorem referrers_analyzeContract :
    (analyzeContract contract).facts.referrers = contract.visitedAnalysis.facts.referrers := rfl

theorem untyped_analyzeContract : (analyzeContract contract).environment.untyped =
      (empty.declareAll contract.body).1.untyped.mark contract.uses := by
  rw [environment_analyzeContract, contract.visitedAnalysis_marked.environment]
  rfl

theorem mem_referrers_analyzeContract :
    owner ∈ (analyzeContract contract).facts.referrers function ↔
      .function function owner ∈ contract.uses := by
  rw [referrers_analyzeContract, contract.visitedAnalysis_marked.referrers]
  simp [Contract.declaredAnalysis, Facts.referrers, Facts.empty, Table.empty, Table.get?]

theorem mem_keys_references_analyzeContract :
    function ∈ (analyzeContract contract).facts.references.keys ↔
      ∃ owner, .function function owner ∈ contract.uses := by
  rw [references_analyzeContract, contract.visitedAnalysis_marked.referred]
  simp [Contract.declaredAnalysis, Facts.empty, Table.empty, Table.keys]

namespace Usage

variable {warning : Diagnostic} {name : String} {facts : Facts}

theorem code_unusedFunction {entry : FunctionEntry}
    (h : unusedFunction facts function entry = some warning) : warning.code = .unusedFunction := by
  unfold unusedFunction at h
  split at h <;> cases h
  rfl

theorem code_unusedConstant {entry : ConstantEntry} (h : unusedConstant name entry = some warning) :
    warning.code = .unusedConstant := by
  unfold unusedConstant at h
  split at h <;> cases h
  rfl

theorem code_unreadVariable {entry : VariableEntry} (h : unreadVariable name entry = some warning) :
    warning.code = .writeOnlyVariable ∨ warning.code = .unusedVariable := by
  unfold unreadVariable at h
  split_ifs at h <;> cases h
  · exact .inl rfl
  · exact .inr rfl

theorem code_unreadMap {entry : MapEntry} (h : unreadMap name entry = some warning) :
    warning.code = .writeOnlyMap ∨ warning.code = .unusedMap := by
  unfold unreadMap at h
  split_ifs at h <;> cases h
  · exact .inl rfl
  · exact .inr rfl

theorem code_of_mem_warnings {environment : Environment}
    (h : warning ∈ warnings environment facts) : warning.code ≠ .typeMismatch := by
  simp only [warnings, mem_append, mem_filterMap] at h
  rcases h with ((h | h) | h) | h <;> obtain ⟨entry, _, hwarning⟩ := h
  · simp [code_unusedFunction hwarning]
  · simp [code_unusedConstant hwarning]
  · rcases code_unreadVariable hwarning with hcode | hcode <;> simp [hcode]
  · rcases code_unreadMap hwarning with hcode | hcode <;> simp [hcode]

end Usage

theorem filter_warnings_analyzeContract :
    (analyzeContract contract).warnings.filter (·.code ≠ .typeMismatch) =
      Usage.warnings (analyzeContract contract).environment (analyzeContract contract).facts := by
  obtain ⟨mismatches, hwarnings, hcodes⟩ := contract.visitedAnalysis_marked.warnings
  have hsplit : (analyzeContract contract).warnings = mismatches ++
      Usage.warnings (analyzeContract contract).environment (analyzeContract contract).facts := by
    show contract.visitedAnalysis.warnings ++ _ = _
    rw [hwarnings]
    rfl
  have hvisit : mismatches.filter (·.code ≠ .typeMismatch) = [] := by
    rw [filter_eq_nil_iff]
    intro warning hwarning
    simp [hcodes warning hwarning]
  rw [hsplit, filter_append, hvisit, nil_append, filter_eq_self]
  intro warning hwarning
  simpa using Usage.code_of_mem_warnings hwarning

end Contracts

end ContractAudit
