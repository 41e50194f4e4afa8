import ContractAudit.CommandLine.Run
import ContractAudit.Proofs.Assessment.Filtering
import ContractAudit.Proofs.Config.Failures
import ContractAudit.Proofs.Parse.Refusal

/-!
# Exit codes

The commands `analyze` and `audit` end with the verdict on a contract: 1 if a stage reports an error
or if a checker that is not disabled finds something of the level of failure that is not silenced,
and 0 otherwise. What the report looks like has no part in it.
-/

namespace ContractAudit

open List Audit Registry Config RiskLevel

variable {assessment : Assessment} {checker : Checker} {bound : RiskLevel}
  {semantic : SemanticResult} {given : Suppressions}

open Text (LooseText)

variable {level : RiskLevel} {issue : Issue}

/-! ## The highest risk -/

namespace RiskLevel

variable {first : RiskLevel}

theorem atLeast_iff {other : RiskLevel} : level.atLeast other = true ↔ other.rank ≤ level.rank :=
  decide_eq_true_iff

theorem atLeast_higher {second : RiskLevel} : (first.higher second).atLeast bound = true ↔
      first.atLeast bound = true ∨ second.atLeast bound = true := by
  simp only [atLeast_iff, higher]
  split <;> omega

theorem atLeast_foldl_higher {levels : List RiskLevel} :
    (levels.foldl higher first).atLeast bound = true ↔
      ∃ level ∈ first :: levels, level.atLeast bound = true := by
  induction levels generalizing first with
  | nil => simp
  | cons second rest ih =>
      rw [foldl_cons, ih, exists_mem_cons_iff, exists_mem_cons_iff,
        exists_mem_cons_iff, atLeast_higher, or_assoc]

end RiskLevel

theorem Assessment.vulnerabilitiesAtLeast_ne_nil : assessment.vulnerabilitiesAtLeast bound ≠ [] ↔
      ∃ issue ∈ assessment.vulnerabilities, ∃ level, issue.risk = some level ∧
        level.atLeast bound = true := by
  simp only [vulnerabilitiesAtLeast, ne_eq, filter_eq_nil_iff, Option.any_eq_true]
  push Not
  rfl

theorem Assessment.highestRisk?_atLeast :
    (∃ level, assessment.highestRisk? = some level ∧ level.atLeast bound = true) ↔
      assessment.vulnerabilitiesAtLeast bound ≠ [] := by
  have hrisks : assessment.vulnerabilitiesAtLeast bound ≠ [] ↔
      ∃ level ∈ assessment.vulnerabilities.filterMap Issue.risk, level.atLeast bound = true := by
    rw [vulnerabilitiesAtLeast_ne_nil]
    simp only [mem_filterMap]
    constructor
    · rintro ⟨issue, hissue, level, hlevel, hbound⟩
      exact ⟨level, ⟨issue, hissue, hlevel⟩, hbound⟩
    · rintro ⟨level, ⟨issue, hissue, hlevel⟩, hbound⟩
      exact ⟨issue, hissue, level, hlevel, hbound⟩
  rw [hrisks, highestRisk?]
  cases assessment.vulnerabilities.filterMap Issue.risk with
  | nil => simp
  | cons first rest =>
      simp only [Option.some.injEq, exists_eq_left']
      exact atLeast_foldl_higher

/-! ## The verdict -/

/-- That a checker that is not disabled and whose risk is of the level of failure finds something
that is not silenced. -/
def Flagged (config : Config) (semantic : SemanticResult) (given : Suppressions) : Prop :=
  ∃ checker ∈ builtin, LooseText.ofString checker.name ∉ config.disabledCheckers ∧
    checker.risk.atLeast config.failOn = true ∧
    ∃ findings, checker.search
        ⟨semantic, dataFlowGraph semantic, config, config.extend given⟩ = .ok findings ∧
      ∃ finding ∈ findings, (checker.issue finding).isSilenced given config.suppressedCodes = false

def Fails (config : Config) (source : String) : Prop :=
  match parse source with
  | .error _ => True
  | .ok parsed =>
      parsed.errors ++ (analyzeContract parsed.contract).errors ≠ [] ∨
        Flagged config (analyzeContract parsed.contract) (Suppressions.none.addDirectives source)

theorem Checker.exists_search_builtin (h : checker ∈ builtin)
    (audited : Audited) : ∃ findings, checker.search audited = .ok findings := by
  obtain ⟨findings, hsearch, -⟩ := search_builtin h (rfl : audited.semantic = _) rfl rfl
  exact ⟨findings, hsearch⟩

theorem Checker.mem_run_builtin (h : checker ∈ builtin) {config : Config} :
    issue ∈ checker.run ⟨semantic, dataFlowGraph semantic, config, config.extend given⟩ ↔
      ∃ findings, checker.search
          ⟨semantic, dataFlowGraph semantic, config, config.extend given⟩ = .ok findings ∧
        ∃ finding ∈ findings, checker.issue finding = issue ∧
          (checker.issue finding).isSilenced given config.suppressedCodes = false := by
  obtain ⟨findings, hsearch⟩ := exists_search_builtin h
    ⟨semantic, dataFlowGraph semantic, config, config.extend given⟩
  simp only [run, hsearch, mem_filter, mem_map, isSuppressed_extend,
    Bool.not_eq_true', Except.ok.injEq, exists_eq_left']
  constructor
  · rintro ⟨⟨finding, hfinding, rfl⟩, hkept⟩
    exact ⟨finding, hfinding, rfl, hkept⟩
  · rintro ⟨finding, hfinding, rfl, hkept⟩
    exact ⟨⟨finding, hfinding, rfl⟩, hkept⟩

theorem mem_vulnerabilities_assess {config : Config} :
    issue ∈ (assess config semantic given).vulnerabilities ↔
      ∃ checker ∈ builtin, LooseText.ofString checker.name ∉ config.disabledCheckers ∧
        issue ∈ checker.run ⟨semantic, dataFlowGraph semantic, config, config.extend given⟩ := by
  simp only [assess, run, enabled_standard, CheckerRun.issues,
    CheckerRun.ofCheckers, flatMap_map, mem_flatMap, mem_filter, Bool.not_eq_true',
    ← Bool.not_eq_true, contains_iff_mem, LooseText.mem_filterMap_toString?, and_assoc]

theorem flagged_iff {config : Config} : Flagged config semantic given ↔
      (assess config semantic given).vulnerabilitiesAtLeast config.failOn ≠ [] := by
  rw [Assessment.vulnerabilitiesAtLeast_ne_nil]
  constructor
  · rintro ⟨checker, hchecker, henabled, hrisk, findings, hsearch, finding, hfinding, hkept⟩
    refine ⟨checker.issue finding, ?_, checker.risk, rfl, hrisk⟩
    exact mem_vulnerabilities_assess.mpr ⟨checker, hchecker, henabled,
      (checker.mem_run_builtin hchecker).mpr ⟨findings, hsearch, finding, hfinding, rfl, hkept⟩⟩
  · rintro ⟨issue, hissue, level, hlevel, hrisk⟩
    obtain ⟨checker, hchecker, henabled, hrun⟩ := mem_vulnerabilities_assess.mp hissue
    obtain ⟨findings, hsearch, finding, hfinding, rfl, hkept⟩ :=
      (checker.mem_run_builtin hchecker).mp hrun
    cases hlevel
    exact ⟨checker, hchecker, henabled, hrisk, findings, hsearch, finding, hfinding, hkept⟩

theorem Flagged.lower {config : Config} (hlevel : config.failOn.atLeast level = true)
    (h : Flagged config semantic given) :
    Flagged { config with failOn := level } semantic given := by
  obtain ⟨checker, hchecker, henabled, hrisk, findings, hsearch, hfound⟩ := h
  have hlowered : ∃ findings,
      checker.search ⟨semantic, dataFlowGraph semantic, config, config.extend given⟩ =
        .ok findings ∧
      checker.search ⟨semantic, dataFlowGraph semantic, { config with failOn := level },
        config.extend given⟩ = .ok findings :=
    checker.search_builtin hchecker rfl rfl rfl
  obtain ⟨findings', hsame, hlowered⟩ := hlowered
  cases hsearch.symm.trans hsame
  rw [atLeast_iff] at hlevel hrisk
  exact ⟨checker, hchecker, henabled, atLeast_iff.mpr (hlevel.trans hrisk), findings,
    hlowered, hfound⟩

theorem Fails.lower {config : Config} {source : String}
    (hlevel : config.failOn.atLeast level = true) (h : Fails config source) :
    Fails { config with failOn := level } source := by
  unfold Fails at h ⊢
  split at h
  · exact trivial
  · exact h.imp_right (Flagged.lower hlevel)

/-! ## Commands -/

theorem Audit.code_ne_sourceUnreadable {depth : Depth} {config : Config} {source file : String}
    {error : Diagnostic} (h : error ∈ (ofText depth config source file).errors) :
    error.code ≠ .sourceUnreadable := by
  unfold ofText at h
  intro hcode
  split at h
  · rw [mem_singleton.mp h] at hcode
    cases hcode
  · next hparse =>
      rcases mem_append.mp h with h | h
      · have hphase := (phase_of_parse hparse h).2
        rw [hcode] at hphase
        cases hphase
      · have hphase := (phase_of_analyzeContract h).2
        rw [hcode] at hphase
        cases hphase

namespace CommandLine

def exitCodeOfAudit (config : Config) (disk : Disk) (audit : Audit) : ExitCode :=
  match audit.success, audit.assessment with
  | true, some assessment => exitCodeOf config assessment
  | _, _ => (failedAudit disk audit).exitCode

theorem exitCodeOfAudit_ofText (config : Config) (disk : Disk) (source path : String) :
    Fails config source ∧
        exitCodeOfAudit config disk (.ofText .assessment config source path) = .failure ∨
      ¬Fails config source ∧
        exitCodeOfAudit config disk (.ofText .assessment config source path) = .success := by
  have hfailed (audit : Audit) (haudit : audit = .ofText .assessment config source path)
      (hfails : audit.success = false) : exitCodeOfAudit config disk audit = .failure := by
    have hcodes : (audit.errors.any fun error => error.code = .sourceUnreadable) = false := by
      rw [any_eq_false]
      intro error herror
      rw [haudit] at herror
      simpa using code_ne_sourceUnreadable herror
    simp [exitCodeOfAudit, hfails, failedAudit, hcodes]
  cases hparse : ContractAudit.parse source with
  | error error =>
      refine .inl ⟨by simp [Fails, hparse], hfailed _ rfl ?_⟩
      simp [ofText, hparse, stopped, success]
  | ok parsed =>
      cases hsuccess : (ofText .assessment config source path).success with
      | false =>
          refine .inl ⟨?_, hfailed _ rfl hsuccess⟩
          simp only [success, ofText, hparse] at hsuccess
          simp only [Fails, hparse]
          exact .inl fun hnone => by simp [hnone] at hsuccess
      | true =>
          have hclean : parsed.errors ++ (analyzeContract parsed.contract).errors = [] := by
            simpa [success, ofText, hparse] using hsuccess
          have hfails : Fails config source ↔ Flagged config (analyzeContract parsed.contract)
              (Suppressions.none.addDirectives source) := by
            simp only [Fails, hparse, hclean, ne_eq, not_true_eq_false, false_or]
          have hcode : exitCodeOfAudit config disk (.ofText .assessment config source path) =
              exitCodeOf config (assess config (analyzeContract parsed.contract)
                (Suppressions.none.addDirectives source)) := by
            rw [exitCodeOfAudit, hsuccess]
            simp only [ofText, hparse, if_true]
          rw [hfails, hcode, flagged_iff, exitCodeOf]
          cases (assess config (analyzeContract parsed.contract)
            (Suppressions.none.addDirectives source)).vulnerabilitiesAtLeast config.failOn with
          | nil => simp
          | cons issue rest => simp

variable {platform : Platform} {disk : Disk} {request : Request} {config : Config}
  {path source : String}

theorem placeOf_eq_resolve (hplain : platform.expandNames path = .ok path)
    (hnul : '\x00' ∉ path.toList) : placeOf platform disk path = .ok (disk.resolve path) := by
  have hcheck : checkPath path = .ok () := checkPath_eq_ok.mpr hnul
  rw [placeOf, hplain]
  show Except.bind (Except.mapError _ (checkPath path)) _ = _
  rw [hcheck]
  rfl

theorem auditOf_eq (depth : Depth) (config : Config) (h : readSource disk path = .ok (.ok source)) :
    auditOf depth config disk path = .ok (.ofText depth config source path) := by
  rw [auditOf, ofFile, h]
  rfl

theorem deliver_eq (platform : Platform) (disk : Disk) (h : request.output = none ∨ request.output =
    some (.value "-"))
    (before : List Message) (report : String) :
    deliver platform disk request before report = .ok (report, disk) := by
  unfold deliver
  rcases h with h | h <;> rw [h]
  rfl

theorem exitCode_perform (terminal : Terminal)
    (hcommand : request.command = .analyze ∨ request.command = .audit)
    (houtput : request.output = none ∨ request.output = some (.value "-"))
    (hconfig : configFor platform disk request = .ok config)
    (hpath : contractPath platform disk request = .ok path)
    (hsource : readSource disk path = .ok (.ok source)) :
    (perform platform terminal disk request).exitCode =
      exitCodeOfAudit config disk (.ofText .assessment config source path) := by
  have haudit := auditOf_eq .assessment config hsource
  generalize ofText .assessment config source path = audit at haudit ⊢
  have hdeliver := deliver_eq platform disk houtput
  rcases hcommand with hcommand | hcommand
  · simp only [perform, hcommand, analyze, hconfig, bind, Except.bind, hpath, haudit,
      exitCodeOfAudit, hdeliver, pure, Except.pure]
    cases audit.success <;> cases audit.assessment <;> rfl
  · simp only [perform, hcommand, auditContract, hconfig, bind, Except.bind, hpath, haudit,
      exitCodeOfAudit, hdeliver, pure, Except.pure]
    cases audit.success <;> cases audit.assessment <;> rfl

/-- A run of a command that judges a contract: the contract can be read, the configuration is valid
and the report goes to the output stream. -/
structure Judgment where
  platform : Platform
  terminal : Terminal
  disk : Disk
  words : List String
  request : Request
  config : Config
  path : String
  source : String
  asked : Invocation.ofWords words = .run request
  judges : request.command = .analyze ∨ request.command = .audit
  shown : request.output = none ∨ request.output = some (.value "-")
  configured : configFor platform disk request = .ok config
  found : contractPath platform disk request = .ok path
  readable : readSource disk path = .ok (.ok source)

namespace Judgment

variable (judgment : Judgment)

def exitCode (judgment : Judgment) : Nat :=
  (run judgment.platform judgment.terminal judgment.disk judgment.words).exitCode

theorem exitCode_cases : Fails judgment.config judgment.source ∧ judgment.exitCode = 1 ∨
      ¬Fails judgment.config judgment.source ∧ judgment.exitCode = 0 := by
  have hperform := exitCode_perform judgment.terminal judgment.judges judgment.shown
    judgment.configured judgment.found judgment.readable
  have hexit : judgment.exitCode =
      (perform judgment.platform judgment.terminal judgment.disk
        judgment.request).exitCode.number := by
    rw [exitCode, run, judgment.asked]
  rw [hexit, hperform]
  rcases exitCodeOfAudit_ofText judgment.config judgment.disk judgment.source judgment.path with
    ⟨hfails, hcode⟩ | ⟨hfails, hcode⟩
  · exact .inl ⟨hfails, by rw [hcode]; rfl⟩
  · exact .inr ⟨hfails, by rw [hcode]; rfl⟩

theorem exitCode_eq_one_iff : judgment.exitCode = 1 ↔ Fails judgment.config judgment.source := by
  rcases judgment.exitCode_cases with ⟨hfails, hcode⟩ | ⟨hfails, hcode⟩ <;> simp [hfails, hcode]

theorem exitCode_eq_zero_iff : judgment.exitCode = 0 ↔ ¬Fails judgment.config judgment.source := by
  rcases judgment.exitCode_cases with ⟨hfails, hcode⟩ | ⟨hfails, hcode⟩ <;> simp [hfails, hcode]

/-- The exit code of `analyze` and `audit` is the verdict. It is 1 if a stage reports an error or
a checker that is not disabled finds something of the level of failure that is not silenced, and
0 otherwise; without errors it is 1 exactly if the highest risk is of the level of failure. A
lower level of failure makes no failure a success. -/
theorem exitCode_reports_verdict (judgment : Judgment) :
    (judgment.exitCode = 1 ↔ Fails judgment.config judgment.source) ∧
    (judgment.exitCode = 0 ↔ ¬Fails judgment.config judgment.source) ∧
    (∀ parsed, ContractAudit.parse judgment.source = .ok parsed →
      parsed.errors ++ (analyzeContract parsed.contract).errors = [] →
      (judgment.exitCode = 1 ↔ ∃ level, (assess judgment.config (analyzeContract parsed.contract)
          (Suppressions.none.addDirectives judgment.source)).highestRisk? = some level ∧
        level.atLeast judgment.config.failOn = true)) ∧
    ∀ other : Judgment, other.source = judgment.source →
      (other.config = judgment.config → other.exitCode = judgment.exitCode) ∧
      ∀ level, judgment.config.failOn.atLeast level = true →
        other.config = { judgment.config with failOn := level } →
        judgment.exitCode = 1 → other.exitCode = 1 := by
  refine ⟨judgment.exitCode_eq_one_iff, judgment.exitCode_eq_zero_iff, ?_, ?_⟩
  · intro parsed hparse hclean
    rw [exitCode_eq_one_iff, Assessment.highestRisk?_atLeast, ← flagged_iff]
    simp only [Fails, hparse, hclean, ne_eq, not_true_eq_false, false_or]
  · intro other hsource
    constructor
    · intro hconfig
      rcases judgment.exitCode_cases with ⟨hfails, hcode⟩ | ⟨hfails, hcode⟩
      · rw [hcode, exitCode_eq_one_iff, hsource, hconfig]
        exact hfails
      · rw [hcode, exitCode_eq_zero_iff, hsource, hconfig]
        exact hfails
    · intro level hlevel hconfig hcode
      rw [exitCode_eq_one_iff] at hcode ⊢
      rw [hsource, hconfig]
      exact hcode.lower hlevel

end Judgment

/-! ## Runs on one contract -/

def sum : String :=
  "(define-read-only (f (a uint)) (+ a u1))\n"

def sumDisk : Disk :=
  ⟨["home"], ⟨[(["home", "sum"], .file (sum.toList.map fun c => UInt8.ofNat c.toNat))], by simp⟩⟩

def Judgment.ofSum (isTerminal : Bool) (words : List String) (request : Request) (config : Config)
    (asked : Invocation.ofWords words = .run request)
    (judges : request.command = .analyze ∨ request.command = .audit)
    (shown : request.output = none ∨ request.output = some (.value "-"))
    (configured : (configFor .bare sumDisk request).toOption = some config)
    (hfile : request.file = "sum") : Judgment where
  platform := .bare
  terminal := ⟨isTerminal, "00:00:00", .plain⟩
  disk := sumDisk
  words := words
  request := request
  config := config
  path := "/home/sum"
  source := sum
  asked := asked
  judges := judges
  shown := shown
  configured := eq_ok_of_toOption configured
  found := by
    rw [contractPath, hfile,
      placeOf_eq_resolve (eq_ok_of_toOption (by decide +kernel)) (by decide)]
    exact eq_ok_of_toOption (by decide +kernel)
  readable := by
    have hsource : sourceAt sumDisk "/home/sum" = .ok sum := eq_ok_of_toOption (by decide +kernel)
    have hcheck : checkPath "/home/sum" = .ok () := checkPath_eq_ok.mpr (by decide)
    rw [readSource, hcheck, hsource]
    rfl

def plainJudgment : Judgment :=
  .ofSum false ["analyze", "sum"] { command := .analyze, file := "sum" } default
    (by decide +kernel) (.inl rfl) (.inl rfl) (by decide +kernel) rfl

def jsonJudgment : Judgment :=
  .ofSum false ["-v", "analyze", "sum", "-f", "json", "--fail-on", "medium", "-o", "-"]
    { command := .analyze, file := "sum", verbosity := 1, format := .value .json
      failOn := some (.value "medium"), output := some (.value "-") }
    { default with failOn := .medium }
    (by decide +kernel) (.inl rfl) (.inr rfl) (by decide +kernel) rfl

def auditJudgment : Judgment :=
  .ofSum true ["audit", "--ast", "--fail-on", "medium", "sum"]
    { command := .audit, file := "sum", showsTree := true, failOn := some (.value "medium") }
    { default with failOn := .medium }
    (by decide +kernel) (.inr rfl) (.inl rfl) (by decide +kernel) rfl

theorem exitCode_reports_sum :
    plainJudgment.exitCode = 0 ∧ jsonJudgment.exitCode = 1 ∧ auditJudgment.exitCode = 1 := by
  obtain ⟨parsed, hparse, hclean, hrisk⟩ : ∃ parsed, ContractAudit.parse sum = .ok parsed ∧
      parsed.errors ++ (analyzeContract parsed.contract).errors = [] ∧
      ∀ config ∈ [Config.default, { Config.default with failOn := .medium }],
        (assess config (analyzeContract parsed.contract)
          (Suppressions.none.addDirectives sum)).highestRisk? = some .medium :=
    exists_parse rfl (by decide +kernel)
  have hdefault := hrisk _ List.mem_cons_self
  have hmedium := hrisk _ (.tail _ List.mem_cons_self)
  obtain ⟨hone, hzero, hplain, -⟩ := plainJudgment.exitCode_reports_verdict
  obtain ⟨-, -, hjson, hothers⟩ := jsonJudgment.exitCode_reports_verdict
  have hfails : jsonJudgment.exitCode = 1 :=
    (hjson parsed hparse hclean).mpr ⟨.medium, hmedium, rfl⟩
  refine ⟨?_, hfails, ((hothers auditJudgment rfl).1 rfl).trans hfails⟩
  rw [hzero, ← hone, hplain parsed hparse hclean]
  rintro ⟨level, hlevel, hbound⟩
  cases hdefault.symm.trans hlevel
  cases hbound

end CommandLine

end ContractAudit
