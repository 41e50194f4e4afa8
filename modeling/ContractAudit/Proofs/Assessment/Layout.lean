import ContractAudit.Proofs.Assessment.Filtering
import ContractAudit.Proofs.Parse.FormNames
import ContractAudit.Proofs.Parse.RoundTrip
import ContractAudit.Proofs.Semantic.Layout

/-!
# Layout does not matter

An assessment makes nothing of the places in an analysed contract but the locations of its issues:
the graphs, the metrics and the issues of a contract without places are those of the contract. With
what is known of two layouts of one contract, `analysis_ignores_layout` says that all of an audit is
the same in both but for the places.
-/

namespace ContractAudit

open List DataFlow Registry ContractAudit.Expr Except Function GeneralIssue Table

variable (config : Config) (environment : Environment) (contract : Contract)
  (semantic : SemanticResult)

/-! ## Graphs and metrics -/

theorem SemanticResult.functions_unplace :
    semantic.unplace.contract.functions = semantic.contract.functions.map FunctionDef.unplace :=
  semantic.contract.functions_unplace

theorem callGraph_unplace : callGraph semantic.unplace = callGraph semantic := by
  rw [callGraph, callGraph, calleesGraph, calleesGraph, semantic.functions_unplace, foldl_map]
  rfl

namespace DataFlow

variable (facts : Facts) (function : FunctionDef)

theorem storage_unplace : storage environment.unplace = storage environment := by
  simp only [storage, Environment.unplace, keys_mapValues]

theorem callAccesses_unplace :
    callAccesses facts function.unplace = callAccesses facts function := by
  show (facts.callsIn (function.body.map unplace)).flatMap _ = _
  rw [facts.callsIn_unplace, flatMap_map]
  rfl

theorem targetIds_unplace : targetIds facts function.unplace = targetIds facts function := by
  show (facts.callsIn (function.body.map unplace)).flatMap _ = _
  rw [facts.callsIn_unplace, flatMap_map, targetIds]
  refine flatMap_congr fun site _ => ?_
  have hhead : (site.args.map unplace).head?.map (·.info.id) =
      site.args.head?.map (·.info.id) := by
    simp [comp_def, NodeInfo.unplace]
  show (if (storageEffects site.info).isEmpty then []
    else ((site.args.map unplace).head?.map (·.info.id)).toList) = _
  rw [hhead]

theorem plainRead?_unplace (targets : List Nat) (node : Node) :
    plainRead? facts targets node.unplace = plainRead? facts targets node := by
  cases node with
  | expr e =>
      cases e with
      | conditional info condition yes no => cases no <;> rfl
      | _ => rfl
  | _ => rfl

theorem accesses_unplace : accesses facts function.unplace = accesses facts function := by
  have hreads : identifierReads facts function.unplace = identifierReads facts function := by
    show (walkBody (function.body.map unplace)).filterMap
      (plainRead? facts (targetIds facts function.unplace)) = _
    rw [walkBody_unplace, filterMap_map, targetIds_unplace]
    exact filterMap_congr fun node _ => plainRead?_unplace facts _ node
  rw [accesses, accesses, callAccesses_unplace, hreads]

end DataFlow

theorem dataFlowGraph_unplace : dataFlowGraph semantic.unplace = dataFlowGraph semantic := by
  have hvisit (draft : Draft) (function : FunctionDef) :
      draft.visit semantic.facts function.unplace = draft.visit semantic.facts function := by
    rw [Draft.visit, accesses_unplace]
    rfl
  have hstorage : storage semantic.unplace.environment =
      storage semantic.environment :=
    storage_unplace _
  have hfacts : semantic.unplace.facts = semantic.facts := rfl
  simp only [dataFlowGraph, hstorage, hfacts, semantic.functions_unplace, foldl_map, hvisit]

theorem Metrics.ofContract_unplace : ofContract contract.unplace = ofContract contract := by
  have hforms (kind : NodeKind) : countForms contract.unplace kind = countForms contract kind := by
    simp only [countForms, Contract.unplace, countP_map, comp_def, Form.kind_unplace]
  simp only [ofContract, countVisible, hforms, contract.functions_unplace, length_map,
    countP_map, foldr_map, comp_def, FunctionDef.unplace]
  rfl

/-! ## Issues -/

def Issue.unplace (issue : Issue) : Issue :=
  { issue with location := issue.location.map fun _ => .nowhere }

def Suppressions.IgnorePlaces (suppressions : Suppressions) : Prop :=
  ∀ issue : Issue, suppressions.isSuppressed issue.unplace.code issue.unplace.location =
    suppressions.isSuppressed issue.code issue.location

theorem Suppressions.IgnorePlaces.filter_unplace {suppressions : Suppressions}
    (h : suppressions.IgnorePlaces) (issues : List Issue) :
    ((issues.map Issue.unplace).filter fun issue =>
        !suppressions.isSuppressed issue.code issue.location) =
      (issues.filter fun issue =>
        !suppressions.isSuppressed issue.code issue.location).map Issue.unplace := by
  rw [filter_map]
  congr 1
  refine filter_congr fun issue _ => ?_
  rw [comp_apply, h issue]

theorem Config.ignorePlaces_extend_none : (config.extend .none).IgnorePlaces := by
  intro issue
  rw [config.isSuppressed_extend, config.isSuppressed_extend, Issue.isSilenced, Issue.isSilenced]
  congr 2
  -- No line has codes of its own, so all that counts is whether there is a place.
  unfold Suppressions.isSuppressed Issue.unplace
  cases issue.location <;> rfl

theorem filterMap_call?_unplace (nodes : List Node) :
    (nodes.map Node.unplace).filterMap Node.call? =
      (nodes.filterMap Node.call?).map Node.unplaceCall := by
  rw [filterMap_map, map_filterMap]
  exact filterMap_congr fun node _ => node.call?_unplace

theorem GeneralIssue.callCount_unplace (callee : String) :
    callCount contract.unplace callee = callCount contract callee := by
  show ((Node.contract contract).unplace.walk.filterMap Node.call?).countP _ = _
  rw [Node.walk_unplace, filterMap_call?_unplace, countP_map]
  rfl

theorem generalIssues_unplace :
    generalIssues config semantic.unplace = (generalIssues config semantic).map Issue.unplace := by
  have hcontract : semantic.unplace.contract = semantic.contract.unplace := rfl
  simp only [generalIssues, hcontract, Contract.functions_unplace, unwraps,
    divisions, callCount_unplace, filter_map, map_append,
    map_map, apply_ite (List.map Issue.unplace)]
  rfl

theorem FunctionIssue.issues_unplace (entry : FunctionEntry) (function : FunctionDef) :
    issues config semantic.unplace entry.unplace function.unplace =
      (issues config semantic entry function).map Issue.unplace := by
  have hcount : function.unplace.params.length = function.params.length := length_map _
  have hparameters : parameters config function.unplace =
      (parameters config function).map Issue.unplace := by
    simp only [parameters, hcount, apply_ite (List.map Issue.unplace)]
    rfl
  have hknown : semantic.unplace.factsOf? function.unplace = semantic.factsOf? function := rfl
  rw [issues, issues, map_append, hparameters, hknown]
  cases semantic.factsOf? function with
  | none => rfl
  | some known =>
      simp only [stateChange, failure, map_append, apply_ite (List.map Issue.unplace)]
      rfl

theorem functionIssues_unplace : functionIssues config semantic.unplace =
      (functionIssues config semantic).map Issue.unplace := by
  rw [functionIssues, functionIssues, map_flatMap, semantic.functions_unplace]
  show (semantic.environment.functions.mapValues fun _ => FunctionEntry.unplace).entries.flatMap _ =
    _
  rw [mapValues, flatMap_map]
  refine flatMap_congr fun entry _ => ?_
  dsimp only
  have hfind : semantic.contract.functions.find?
      ((fun function => decide (function.name = entry.1)) ∘ FunctionDef.unplace) =
        semantic.contract.functions.find? (·.name = entry.1) := rfl
  rw [find?_map, hfind]
  cases semantic.contract.functions.find? (·.name = entry.1) with
  | none => rfl
  | some function => exact FunctionIssue.issues_unplace config semantic entry.2 function

theorem UnusedCode.issues_unplace :
    issues environment.unplace = (issues environment).map Issue.unplace := by
  simp only [issues, Environment.unplace, mapValues, filterMap_map, map_append,
    map_filterMap, constant, dataVariable, map, writeOnlyVariable, writeOnlyMap,
    apply_ite (Option.map Issue.unplace)]
  rfl

/-! ## Checkers -/

def Finding.unplace (finding : Finding) : Finding :=
  { finding with location := finding.location.map fun _ => .nowhere }

def Audited.unplace (audited : Audited) : Audited :=
  { audited with semantic := audited.semantic.unplace }

namespace Checker

variable {checker : Checker} (functions : List FunctionDef) (identifiers : List String)

theorem callsNamed_unplace (body : List Expr) (names : List String) :
    callsNamed (body.map unplace) names = (callsNamed body names).map Node.unplaceCall := by
  rw [callsNamed, walkBody_unplace, filterMap_call?_unplace, filter_map]
  rfl

theorem flatMap_callsNamed_unplace (names : List String)
    {finding : NodeInfo × String × List Expr → Finding}
    (h : ∀ call, finding (Node.unplaceCall call) = (finding call).unplace) :
    ((functions.map FunctionDef.unplace).flatMap fun function =>
        (callsNamed function.body names).map finding) =
      (functions.flatMap fun function =>
        (callsNamed function.body names).map finding).map Finding.unplace := by
  rw [flatMap_map, map_flatMap]
  refine flatMap_congr fun function _ => ?_
  show (callsNamed (function.body.map unplace) names).map finding = _
  rw [callsNamed_unplace, map_map, map_map]
  exact map_congr_left fun call _ => h call

theorem map_filter_unplace {flags flags' : FunctionDef → Bool} {finding : FunctionDef → Finding}
    (hflags : ∀ function, flags' function.unplace = flags function)
    (hfinding : ∀ function, finding function.unplace = (finding function).unplace) :
    ((functions.map FunctionDef.unplace).filter flags').map finding =
      ((functions.filter flags).map finding).map Finding.unplace := by
  have hkept : flags' ∘ FunctionDef.unplace = flags := funext hflags
  rw [filter_map, map_map, map_map, hkept]
  exact map_congr_left fun function _ => hfinding function

theorem Reentrancy.writesAfter_unplace (handedOver : Bool) (sites : List Facts.CallSite) :
    writesAfter handedOver (sites.map Facts.CallSite.unplace) = writesAfter handedOver sites := by
  induction sites generalizing handedOver with
  | nil => rfl
  | cons site rest ih =>
      rw [map_cons, writesAfter, writesAfter, ih]
      rfl

theorem Authorization.mentions_unplace (expr : Expr) :
    mentions identifiers expr.unplace = mentions identifiers expr := by
  have hname : identifierName? ∘ Node.unplace = identifierName? := by
    funext node
    cases node with
    | expr e =>
        cases e with
        | conditional info condition yes no => cases no <;> rfl
        | _ => rfl
    | _ => rfl
  show ((Node.expr expr).unplace.walk.filterMap identifierName?).any _ = _
  rw [Node.walk_unplace, filterMap_map, hname, mentions]

theorem Authorization.isChecked_unplace (function : FunctionDef) :
    isChecked identifiers function.unplace = isChecked identifiers function := by
  show (callsNamed (function.body.map unplace) checks).any _ = _
  rw [callsNamed_unplace, any_map, isChecked]
  congr 1
  funext call
  show (call.2.2.map unplace).any _ = _
  rw [any_map]
  congr 1
  funext expr
  exact mentions_unplace identifiers expr

theorem StateInconsistency.finding_unplace (entry : String × DataNode) :
    finding environment.unplace entry = (finding environment entry).unplace := by
  have hdeclared : declaredAt? environment.unplace entry.2.kind entry.1 =
      (declaredAt? environment entry.2.kind entry.1).map fun _ => .nowhere := by
    unfold declaredAt? Environment.unplace
    simp only [get?_mapValues]
    cases entry.2.kind
    · cases environment.dataVars.get? entry.1 <;> rfl
    · cases environment.maps.get? entry.1 <;> rfl
    · rfl
  rw [finding, hdeclared]
  rfl

/-- The builtin checkers find the same without places. -/
theorem search_unplace (h : checker ∈ builtin) (audited : Audited) :
    ∃ findings, checker.search audited = .ok findings ∧
      checker.search audited.unplace = .ok (findings.map Finding.unplace) := by
  have hfunctions : audited.unplace.functions = audited.functions.map FunctionDef.unplace :=
    audited.semantic.functions_unplace
  simp only [builtin, mem_cons, not_mem_nil, or_false] at h
  -- Two checkers flag functions and two flag calls; the last one reads the data-flow graph, which
  -- has no places, and looks up where the storage is declared.
  rcases h with rfl | rfl | rfl | rfl | rfl
  · refine ⟨_, rfl, congrArg ok ?_⟩
    rw [Reentrancy.flagged, hfunctions]
    refine map_filter_unplace _ (fun function => ?_) fun _ => rfl
    show Reentrancy.writesAfter false
      (audited.semantic.facts.callsIn (function.body.map unplace)) = _
    rw [Facts.callsIn_unplace, Reentrancy.writesAfter_unplace]
  · refine ⟨_, rfl, congrArg ok ?_⟩
    rw [hfunctions]
    exact flatMap_callsNamed_unplace _ _ fun _ => rfl
  · refine ⟨_, rfl, congrArg ok ?_⟩
    rw [Authorization.flagged, hfunctions]
    refine map_filter_unplace _ (fun function => ?_) fun _ => rfl
    rw [Authorization.isChecked_unplace]
    rfl
  · refine ⟨_, rfl, congrArg ok ?_⟩
    rw [hfunctions]
    refine flatMap_callsNamed_unplace _ _ fun call => ?_
    rw [UnsafeOperation.finding, UnsafeOperation.finding, apply_ite Finding.unplace]
    rfl
  · refine ⟨_, rfl, congrArg ok ?_⟩
    rw [map_map]
    exact map_congr_left fun entry _ => StateInconsistency.finding_unplace _ entry

theorem run_unplace (h : checker ∈ builtin) {audited : Audited}
    (hsilent : audited.suppressions.IgnorePlaces) :
    checker.run audited.unplace = (checker.run audited).map Issue.unplace := by
  obtain ⟨findings, hfound, hfound'⟩ := search_unplace h audited
  have hissues : (findings.map Finding.unplace).map checker.issue =
      (findings.map checker.issue).map Issue.unplace := by
    rw [map_map, map_map]
    rfl
  rw [run, run, hfound, hfound']
  dsimp only [Audited.unplace]
  rw [hissues, hsilent.filter_unplace]

end Checker

def CheckerRun.unplace (run : CheckerRun) : CheckerRun :=
  ⟨run.results.map fun result => (result.1, result.2.map Issue.unplace)⟩

theorem CheckerRun.issues_unplace (run : CheckerRun) :
    run.unplace.issues = run.issues.map Issue.unplace := by
  rw [issues, issues, unplace, flatMap_map, map_flatMap]

theorem Registry.run_standard_unplace (disabled : List String) (audited : Audited)
    (hsilent : audited.suppressions.IgnorePlaces) :
    (standard disabled).run audited.unplace none =
    ((standard disabled).run audited none).unplace := by
  simp only [run, enabled_standard, CheckerRun.ofCheckers, CheckerRun.unplace, map_map]
  congr 1
  refine map_congr_left fun checker hchecker => ?_
  rw [checker.run_unplace (mem_of_mem_filter hchecker) hsilent]
  rfl

/-! ## Assessments -/

def Assessment.unplace (assessment : Assessment) : Assessment :=
  { assessment with
    issues := assessment.issues.map Issue.unplace
    semanticIssues := assessment.semanticIssues.map Issue.unplace
    vulnerabilities := assessment.vulnerabilities.map Issue.unplace
    environment := assessment.environment.map Environment.unplace
    checkerRun := assessment.checkerRun.unplace }

theorem assess_unplace :
    assess config semantic.unplace .none = (assess config semantic .none).unplace := by
  have hsilent := config.ignorePlaces_extend_none
  have hrun (disabled : List String) : (standard disabled).run
      ⟨semantic.unplace, dataFlowGraph semantic, config, config.extend .none⟩ none =
        ((standard disabled).run
          ⟨semantic, dataFlowGraph semantic, config, config.extend .none⟩ none).unplace :=
    run_standard_unplace disabled ⟨semantic, _, config, _⟩ hsilent
  have hcontract : semantic.unplace.contract = semantic.contract.unplace := rfl
  have henvironment : semantic.unplace.environment = semantic.environment.unplace := rfl
  simp only [assess, Assessment.unplace, callGraph_unplace, dataFlowGraph_unplace, hcontract,
    henvironment, Metrics.ofContract_unplace, generalIssues_unplace, functionIssues_unplace,
    UnusedCode.issues_unplace, hrun, CheckerRun.issues_unplace, ← map_append,
    hsilent.filter_unplace, Option.map_some]

/-- Parses without errors number the nodes of a tree alike, so that two of one tree differ in places
only. -/
theorem unplace_eq_of_parse {source source' : String} {result result' : ParseResult}
    (h : parse source = .ok result) (h' : parse source' = .ok result')
    (hclean : result.errors = []) (hclean' : result'.errors = [])
    (herase : result.contract.erase = result'.contract.erase) :
    result.contract.unplace = result'.contract.unplace := by
  have hnumbers {source : String} {result : ParseResult} (h : parse source = .ok result)
      (hclean : result.errors = []) :
      Node.ids result.contract.postorder = List.range result.contract.postorder.length := by
    obtain ⟨state, herrors, hmade⟩ := made_of_parseTokens h
    rw [range_eq_range']
    exact hmade.map_id (herrors.trans hclean)
  exact Contract.unplace_eq_of_range herase (hnumbers h hclean) (hnumbers h' hclean')

/-- Where two sources parse without errors and their trees are the same up to places and numbers,
the numbers are the same too; the analysis knows the same of the nodes and of the functions and,
but for places, declares the same names in the same order and reports the same errors and
warnings. Whatever the options, the two assessments have the same graphs and metrics and, but for
places, the same issues in the same order. -/
theorem analysis_ignores_layout {source source' : String} {result result' : ParseResult}
    (h : parse source = .ok result) (h' : parse source' = .ok result')
    (hclean : result.errors = []) (hclean' : result'.errors = [])
    (herase : result.contract.erase = result'.contract.erase) :
    (analyzeContract result.contract).facts = (analyzeContract result'.contract).facts ∧
    (analyzeContract result.contract).unplace = (analyzeContract result'.contract).unplace ∧
    ∀ config : Config, (assess config (analyzeContract result.contract) .none).callGraph =
        (assess config (analyzeContract result'.contract) .none).callGraph ∧
      (assess config (analyzeContract result.contract) .none).dataFlow =
        (assess config (analyzeContract result'.contract) .none).dataFlow ∧
      (assess config (analyzeContract result.contract) .none).metrics =
        (assess config (analyzeContract result'.contract) .none).metrics ∧
      (assess config (analyzeContract result.contract) .none).unplace =
        (assess config (analyzeContract result'.contract) .none).unplace := by
  have hsemantic : (analyzeContract result.contract).unplace =
      (analyzeContract result'.contract).unplace :=
    analyzeContract_unplace (unplace_eq_of_parse h h' hclean hclean' herase)
      (nodup_formSpans h) (nodup_formSpans h')
  refine ⟨?_, hsemantic, fun config => ?_⟩
  · show (analyzeContract result.contract).unplace.facts = _
    rw [hsemantic]
    rfl
  · have hassess : (assess config (analyzeContract result.contract) .none).unplace =
        (assess config (analyzeContract result'.contract) .none).unplace := by
      rw [← assess_unplace, hsemantic, assess_unplace]
    exact ⟨(congrArg Assessment.callGraph hassess :), (congrArg Assessment.dataFlow hassess :),
      (congrArg Assessment.metrics hassess :), hassess⟩

def feeLedger : String :=
  "( define-constant fee u1 ) ( define-constant fee true ) ( define-data-var total uint u0 ) " ++
  "( define-public ( pay ) ( ok ( var-set total fee ) ) )"

def feeLedgerLines : String :=
  "(define-constant fee u1)
(define-constant fee true) ;; the first counts
(define-data-var total uint u0)

(define-public (pay) (ok (var-set total fee)))"

/-- The second definition is an error, in the two layouts on different lines. -/
theorem analysis_ignores_layout_feeLedger :
    ∃ result result', parse feeLedger = .ok result ∧ parse feeLedgerLines = .ok result' ∧
      result.errors = [] ∧ result'.errors = [] ∧
      result.contract.erase = result'.contract.erase ∧
      ((analyzeContract result.contract).errors.map fun error => error.location.line) = [1] ∧
      ((analyzeContract result'.contract).errors.map fun error => error.location.line) = [2] ∧
      (analyzeContract result.contract).facts = (analyzeContract result'.contract).facts ∧
      (analyzeContract result.contract).unplace = (analyzeContract result'.contract).unplace ∧
      (assess .default (analyzeContract result.contract) .none).vulnerabilities.map Issue.code =
        ["missing-authorization"] ∧
      (assess .default (analyzeContract result.contract) .none).unplace =
        (assess .default (analyzeContract result'.contract) .none).unplace := by
  obtain ⟨result, hparse, hclean, hprintable, hprint, hline, hfound⟩ :
      ∃ result, parse feeLedger = .ok result ∧ result.errors = [] ∧
        result.contract.printable = true ∧ result.contract.print = feeLedger ∧
        ((analyzeContract result.contract).errors.map fun error => error.location.line) = [1] ∧
        (assess .default (analyzeContract result.contract) .none).vulnerabilities.map Issue.code =
          ["missing-authorization"] :=
    exists_parse (append_eq_ofList rfl rfl) (by decide +kernel)
  obtain ⟨result', hparse', hclean', hprintable', hprint', hline'⟩ :
      ∃ result, parse feeLedgerLines = .ok result ∧ result.errors = [] ∧
        result.contract.printable = true ∧ result.contract.print = feeLedger ∧
        ((analyzeContract result.contract).errors.map fun error => error.location.line) = [2] :=
    exists_parseTokens (by decide +kernel)
  have herase := erase_eq_of_print hprintable hprintable' (hprint.trans hprint'.symm)
  obtain ⟨hfacts, hsemantic, hassess⟩ :=
    analysis_ignores_layout hparse hparse' hclean hclean' herase
  exact ⟨result, result', hparse, hparse', hclean, hclean', herase, hline, hline',
    hfacts, hsemantic,
    hfound, (hassess .default).2.2.2⟩

end ContractAudit
