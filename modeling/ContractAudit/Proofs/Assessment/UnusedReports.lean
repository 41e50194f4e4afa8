import ContractAudit.Proofs.Assessment.Filtering
import ContractAudit.Proofs.Semantic.UsageFlags

/-!
# Two reports on unused code

The analysis warns about what is declared and not used, and an assessment has issues about the same
things. The two go over the declarations in different orders and ask for the marks in different
ways: the warnings tell storage that is written only from storage that is not used at all, the
issues are collected once for each. `unused_reports_agree` says that they report the same.
-/

namespace ContractAudit

open List Usage DeclaredTable Diagnostic FunctionDef UnusedCode

variable {contract : Contract}

theorem filterMap_perm_append {α β : Type} {both first second : α → Option β}
    (h : ∀ entry, both entry = first entry ∧ second entry = none ∨
      both entry = second entry ∧ first entry = none) (entries : List α) :
    (entries.filterMap both).Perm (entries.filterMap first ++ entries.filterMap second) := by
  induction entries with
  | nil => exact .nil
  | cons entry rest ih =>
      rcases h entry with ⟨heq, hnone⟩ | ⟨heq, hnone⟩
      · rw [filterMap_cons_none hnone]
        cases hfirst : first entry with
        | none => rwa [filterMap_cons_none (heq.trans hfirst), filterMap_cons_none hfirst]
        | some report =>
            rw [filterMap_cons_some (heq.trans hfirst), filterMap_cons_some hfirst]
            exact ih.cons report
      · rw [filterMap_cons_none hnone]
        cases hsecond : second entry with
        | none => rwa [filterMap_cons_none (heq.trans hsecond), filterMap_cons_none hsecond]
        | some report =>
            rw [filterMap_cons_some (heq.trans hsecond), filterMap_cons_some hsecond]
            exact (ih.cons report).trans perm_middle.symm

def Diagnostic.mark (warning : Diagnostic) : String × Option Location :=
  (warning.code.label, some warning.location)

def Issue.mark (issue : Issue) : String × Option Location :=
  (issue.code, issue.location)

namespace UnusedCode

variable (name : String)

theorem mark_constant (entry : ConstantEntry) : (unusedConstant name entry).map mark =
      (constant name entry).map Issue.mark := by
  unfold unusedConstant constant
  split <;> rfl

theorem mark_variable (entry : VariableEntry) : (unreadVariable name entry).map mark =
        (dataVariable name entry).map Issue.mark ∧
          (writeOnlyVariable name entry).map Issue.mark = none ∨
      (unreadVariable name entry).map mark =
        (writeOnlyVariable name entry).map Issue.mark ∧
          (dataVariable name entry).map Issue.mark = none := by
  unfold unreadVariable dataVariable writeOnlyVariable
  cases entry.accessed <;> cases entry.modified
  · exact .inl ⟨rfl, rfl⟩
  · exact .inr ⟨rfl, rfl⟩
  · exact .inl ⟨rfl, rfl⟩
  · exact .inl ⟨rfl, rfl⟩

theorem mark_map (entry : MapEntry) :
    (unreadMap name entry).map mark = (map name entry).map Issue.mark ∧
        (writeOnlyMap name entry).map Issue.mark = none ∨
      (unreadMap name entry).map mark =
        (writeOnlyMap name entry).map Issue.mark ∧ (map name entry).map Issue.mark = none := by
  unfold unreadMap map writeOnlyMap
  cases entry.accessed <;> cases entry.modified
  · exact .inl ⟨rfl, rfl⟩
  · exact .inr ⟨rfl, rfl⟩
  · exact .inl ⟨rfl, rfl⟩
  · exact .inl ⟨rfl, rfl⟩

end UnusedCode

def storageCodes : List Code :=
  [.unusedConstant, .unusedVariable, .unusedMap, .writeOnlyVariable, .writeOnlyMap]

theorem perm_mark_issues (contract : Contract) :
    (((analyzeContract contract).warnings.filter fun warning =>
        storageCodes.contains warning.code).map mark).Perm
      ((issues (analyzeContract contract).environment).map Issue.mark) := by
  generalize henvironment : (analyzeContract contract).environment = environment
  have hkept : (analyzeContract contract).warnings.filter
      (fun warning => storageCodes.contains warning.code) =
        environment.constants.entries.filterMap
          (fun entry => unusedConstant entry.1 entry.2) ++
        environment.dataVars.entries.filterMap
          (fun entry => unreadVariable entry.1 entry.2) ++
        environment.maps.entries.filterMap fun entry => unreadMap entry.1 entry.2 :=
    henvironment ▸ filter_warnings contract _ rfl rfl rfl
  have hconstants := filterMap_congr fun (entry : String × ConstantEntry)
    (_ : entry ∈ environment.constants.entries) => mark_constant entry.1 entry.2
  have hvariables := filterMap_perm_append
    (fun entry : String × VariableEntry => mark_variable entry.1 entry.2)
    environment.dataVars.entries
  have hmaps := filterMap_perm_append
    (fun entry : String × MapEntry => mark_map entry.1 entry.2) environment.maps.entries
  rw [hkept, issues]
  simp only [map_append, map_filterMap, hconstants]
  simp only [append_assoc]
  refine .append_left _ ((hvariables.append hmaps).trans ?_)
  simp only [append_assoc]
  refine .append_left _ ?_
  simp only [← append_assoc]
  exact .append_right _ perm_append_comm

def FunctionDef.entry (f : FunctionDef) : String × FunctionEntry :=
  (f.name, ⟨f.visibility, f.params.map fun param => (param.name, param.type.toValueType),
    f.info.span, .uint⟩)

section Functions

variable (hdistinct : (contract.functions.map name).Nodup)
  (hnamed : Parse.placeholder ∉ contract.functions.map name)

include hdistinct hnamed

theorem entries_functions_analyzeContract :
    (analyzeContract contract).environment.untyped.functions.entries =
      contract.functions.map entry := by
  have hmade : functions.entries contract.body =
      contract.functions.map entry := by
    have hall : contract.body.filterMap functions.made? =
        contract.functions.map entry := by
      rw [Contract.functions, map_filterMap]
      refine filterMap_congr fun form _ => ?_
      cases form <;> rfl
    rw [entries, hall, filter_eq_self]
    intro entry hentry
    obtain ⟨f, hf, rfl⟩ := mem_map.mp hentry
    exact decide_eq_true fun hname => hnamed (mem_map.mpr ⟨f, hf, hname⟩)
  rw [untyped_analyzeContract]
  show List.map _ (functions.table
    (Environment.empty.declareAll contract.body).1).entries = _
  rw [functions.table_declareAll_empty, hmade, Table.entries_ofFirst, map_map]
  · rfl
  · rw [map_map]
    exact hdistinct

theorem filter_unusedFunction :
    (analyzeContract contract).warnings.filter (fun warning => warning.code = .unusedFunction) =
      (contract.functions.filter (GeneralIssue.isUnused (analyzeContract contract).facts)).map
        fun f => .warning .semantic .unusedFunction s!"Private function '{f.name}' is never called"
          f.location := by
  have huntyped : (analyzeContract contract).environment.functions.entries.filterMap (fun entry =>
        unusedFunction (analyzeContract contract).facts entry.1 entry.2) =
      (analyzeContract contract).environment.untyped.functions.entries.filterMap fun entry =>
        unusedFunction (analyzeContract contract).facts entry.1 entry.2 := by
    simp only [Environment.untyped, Table.mapValues, filterMap_map]
    rfl
  have hkept := filter_warnings contract (decide <| · = .unusedFunction) rfl rfl rfl
  simp only [decide_true, if_true, reduceCtorEq, decide_false, Bool.false_eq_true, if_false,
    append_nil] at hkept
  rw [hkept, huntyped, entries_functions_analyzeContract hdistinct hnamed, filterMap_map,
    ← filterMap_eq_map, filterMap_filter]
  rfl

end Functions

/-- The two reports about unused code agree: on constants and storage they mark the same places
with the same codes, and where every function has a readable name of its own, they name the same
functions in the same order. -/
theorem unused_reports_agree (contract : Contract) (config : Config) :
    (((analyzeContract contract).warnings.filter fun warning =>
        storageCodes.contains warning.code).map Diagnostic.mark).Perm
      ((UnusedCode.issues (analyzeContract contract).environment).map Issue.mark) ∧
    ((contract.functions.map FunctionDef.name).Nodup →
      Parse.placeholder ∉ contract.functions.map FunctionDef.name →
      ∃ unused : List FunctionDef, unused.Sublist contract.functions ∧
        (analyzeContract contract).warnings.filter (·.code = .unusedFunction) =
          unused.map (fun f => .warning .semantic .unusedFunction
            s!"Private function '{f.name}' is never called" f.location) ∧
        (generalIssues config (analyzeContract contract)).filter
            (·.code = Code.unusedFunction.label) = unused.map GeneralIssue.unusedFunction) := by
  refine ⟨perm_mark_issues contract, fun hdistinct hnamed => ⟨_, filter_sublist,
    filter_unusedFunction hdistinct hnamed, ?_⟩⟩
  rw [filter_generalIssues]
  simp [Code.label]
  rfl

def leftovers : String :=
  "(define-map seen uint uint) (define-data-var total uint u0) (define-constant fee u2) " ++
    "(define-private (spare) u1) (define-private (next) u2) " ++
    "(define-public (run) (ok (var-set total (next))))"

theorem unused_reports_agree_leftovers : ∃ result, parse leftovers = .ok result ∧
      ((UnusedCode.issues (analyzeContract result.contract).environment).map Issue.mark).Perm
        (((analyzeContract result.contract).warnings.filter fun warning =>
          storageCodes.contains warning.code).map Diagnostic.mark) ∧
      ((analyzeContract result.contract).warnings.filter fun warning =>
        storageCodes.contains warning.code).map (·.code.label) =
          ["unused-constant", "write-only-variable", "unused-map"] ∧
      ((generalIssues .default (analyzeContract result.contract)).filter
        (·.code = Code.unusedFunction.label)).map Issue.location = [some ⟨1, 86, 85⟩] := by
  obtain ⟨result, hparse, hdistinct, hnamed, hcodes, hplaces⟩ :
      ∃ result, parse leftovers = .ok result ∧
        (result.contract.functions.map FunctionDef.name).Nodup ∧
        Parse.placeholder ∉ result.contract.functions.map FunctionDef.name ∧
        ((analyzeContract result.contract).warnings.filter fun warning =>
          storageCodes.contains warning.code).map (·.code.label) =
            ["unused-constant", "write-only-variable", "unused-map"] ∧
        ((analyzeContract result.contract).warnings.filter (·.code = .unusedFunction)).map
          Diagnostic.location = [⟨1, 86, 85⟩] :=
    exists_parse (append_eq_ofList (append_eq_ofList rfl rfl) rfl) (by decide +kernel)
  obtain ⟨hstorage, hfunctions⟩ := unused_reports_agree result.contract .default
  obtain ⟨unused, _, hwarnings, hissues⟩ := hfunctions hdistinct hnamed
  refine ⟨result, hparse, hstorage.symm, hcodes, ?_⟩
  rw [hwarnings, map_map] at hplaces
  have hsome := congrArg (List.map some) hplaces
  rw [map_map] at hsome
  rwa [hissues, map_map]

end ContractAudit
