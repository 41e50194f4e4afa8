import ContractAudit.Assessment
import ContractAudit.Proofs.Table

/-!
# Configurations only filter

Disabled checkers and silenced codes take issues out of an assessment and change nothing else. The
two are applied in different places: a checker leaves out what is silenced when it reports, the
assessment does so with the other issues, and the registry passes over a checker that is disabled.
`assess_only_filters` says that together they are one filter on the assessment without them.
-/

namespace ContractAudit

open List GeneralIssue Registry Suppressions

open Text (LooseText)

variable {checker : Checker} {checkers : List Checker} {audited : Audited} {code : String}
  (config : Config)

/-! ## Options that are strings -/

namespace Text.LooseText

variable {string : String}

theorem mapM_char?_eq_some {points : List CodePoint} {chars : List Char}
    (h : points.mapM CodePoint.char? = some chars) : points = chars.map CodePoint.char := by
  induction points generalizing chars with
  | nil =>
      cases h
      rfl
  | cons point rest ih =>
      cases point with
      | half offset => simp [mapM_cons, CodePoint.char?] at h
      | char c =>
          simp only [mapM_cons, CodePoint.char?, Option.bind_eq_bind, Option.bind_some,
            Option.pure_def, Option.bind_eq_some_iff, Option.some.injEq] at h
          obtain ⟨others, hothers, rfl⟩ := h
          rw [ih hothers, map_cons]

theorem toString?_eq_some_iff {text : LooseText} :
    text.toString? = some string ↔ text = ofString string := by
  constructor
  · intro h
    obtain ⟨chars, hchars, rfl⟩ := Option.map_eq_some_iff.mp h
    rw [ofString, String.toList_ofList, ← mapM_char?_eq_some hchars]
  · rintro rfl
    exact toString?_ofString string

theorem mem_filterMap_toString? {texts : List LooseText} :
    string ∈ texts.filterMap toString? ↔ ofString string ∈ texts := by
  simp only [mem_filterMap, toString?_eq_some_iff, exists_eq_right]

end Text.LooseText

/-! ## Silenced issues -/

namespace Suppressions

variable (codes : List String) (suppressions : Suppressions)

theorem mem_everywhere_foldl {codes : List String} {suppressions : Suppressions} :
    code ∈ (codes.foldl addEverywhere suppressions).everywhere ↔
      code ∈ suppressions.everywhere ∨ code ∈ codes := by
  induction codes generalizing suppressions with
  | nil => simp
  | cons first rest ih => rw [foldl_cons, ih, addEverywhere, mem_addNew, mem_cons, or_assoc]

theorem onLine_foldl : (codes.foldl addEverywhere suppressions).onLine = suppressions.onLine := by
  induction codes generalizing suppressions with
  | nil => rfl
  | cons first rest ih => exact ih _

theorem isSuppressed_foldl (code : String) (location : Option Location) :
    (codes.foldl addEverywhere suppressions).isSuppressed code location =
      (suppressions.isSuppressed code location || silences codes code) := by
  have heverywhere : silences (codes.foldl addEverywhere suppressions).everywhere code =
      (silences suppressions.everywhere code || silences codes code) := by
    rw [Bool.eq_iff_iff, Bool.or_eq_true, silences_iff, silences_iff, silences_iff,
      mem_everywhere_foldl, mem_everywhere_foldl]
    exact or_or_or_comm
  unfold isSuppressed
  rw [heverywhere, onLine_foldl, Bool.or_right_comm]

end Suppressions

/-- Whether an issue is silenced, by suppressions at its place or by a list of codes. -/
def Issue.isSilenced (issue : Issue) (given : Suppressions) (codes : List LooseText) : Bool :=
  given.isSuppressed issue.code issue.location || codes.contains (.ofString issue.code) ||
    codes.contains (.ofString anyCode)

theorem Config.isSuppressed_extend (given : Suppressions) (issue : Issue) :
    (config.extend given).isSuppressed issue.code issue.location =
      issue.isSilenced given config.suppressedCodes := by
  have hcodes : silences (config.suppressedCodes.filterMap LooseText.toString?)
      issue.code = (config.suppressedCodes.contains (.ofString issue.code) ||
        config.suppressedCodes.contains (.ofString anyCode)) := by
    rw [Bool.eq_iff_iff, silences_iff, LooseText.mem_filterMap_toString?,
      LooseText.mem_filterMap_toString?, Bool.or_eq_true, contains_iff_mem,
      contains_iff_mem]
  rw [extend, isSuppressed_foldl, hcodes, ← Bool.or_assoc, Issue.isSilenced]

/-! ## Checkers that run -/

namespace Registry

variable {registry : Registry}

theorem disabled_foldl_disable {names : List String} {name : String} :
    name ∈ (names.foldl disable registry).disabled ↔ name ∈ registry.disabled ∨ name ∈ names := by
  induction names generalizing registry with
  | nil => simp
  | cons first rest ih => rw [foldl_cons, ih, disable, mem_addNew, mem_cons, or_assoc]

theorem checkers_foldl_disable (names : List String) (registry : Registry) :
    (names.foldl disable registry).checkers = registry.checkers := by
  induction names generalizing registry with
  | nil => rfl
  | cons first rest ih => exact ih _

theorem disabled_foldl_register (checkers : List Checker) (registry : Registry) :
    (checkers.foldl register registry).disabled = registry.disabled := by
  induction checkers generalizing registry with
  | nil => rfl
  | cons first rest ih => exact ih _

theorem entries_foldl_register (h : (registry.checkers.keys ++ checkers.map Checker.name).Nodup) :
    (checkers.foldl register registry).checkers.entries =
      registry.checkers.entries ++ checkers.map fun checker => (checker.name, checker) := by
  induction checkers generalizing registry with
  | nil => simp
  | cons first rest ih =>
      have hnew : first.name ∉ registry.checkers.keys := fun hmem =>
        (nodup_append.mp h).2.2 _ hmem _ mem_cons_self rfl
      have hentries : (registry.register first).checkers.entries =
          registry.checkers.entries ++ [(first.name, first)] :=
        Table.entries_insert_of_not_mem hnew first
      have hkeys : (registry.register first).checkers.keys =
          registry.checkers.keys ++ [first.name] := by
        rw [Table.keys, hentries, map_append]
        rfl
      rw [foldl_cons, ih, hentries, append_assoc]
      · rfl
      · rwa [hkeys, append_assoc]

theorem enabled_standard (disabled : List String) : (standard disabled).enabled =
      builtin.filter fun checker => !disabled.contains checker.name := by
  have hentries : (standard disabled).checkers.entries =
      builtin.map fun checker => (checker.name, checker) := by
    rw [standard, checkers_foldl_disable, entries_foldl_register (by decide)]
    rfl
  have hdisabled (name : String) : (standard disabled).disabled.contains name =
      disabled.contains name := by
    rw [Bool.eq_iff_iff, contains_iff_mem, contains_iff_mem, standard,
      disabled_foldl_disable, disabled_foldl_register]
    simp [empty]
  rw [enabled, hentries, filter_map, map_map]
  simp only [hdisabled, Function.comp_def, map_id_fun', id_eq]

end Registry

theorem Checker.search_builtin (h : checker ∈ builtin) {first second : Audited}
    (hsemantic : first.semantic = second.semantic) (hdataFlow : first.dataFlow = second.dataFlow)
    (hidentifiers : first.config.authIdentifiers = second.config.authIdentifiers) :
    ∃ findings, checker.search first = .ok findings ∧ checker.search second = .ok findings := by
  obtain ⟨semantic, dataFlow, config, suppressions⟩ := first
  obtain ⟨semantic', dataFlow', config', suppressions'⟩ := second
  dsimp only at hsemantic hdataFlow hidentifiers
  subst hsemantic hdataFlow
  simp only [builtin, mem_cons, not_mem_nil, or_false] at h
  rcases h with rfl | rfl | rfl | rfl | rfl
  · exact ⟨_, rfl, rfl⟩
  · exact ⟨_, rfl, rfl⟩
  · refine ⟨_, rfl, ?_⟩
    simp only [authorization, Authorization.flagged, hidentifiers]
    rfl
  · exact ⟨_, rfl, rfl⟩
  · exact ⟨_, rfl, rfl⟩

theorem Checker.checker_of_mem_run {issue : Issue} (h : issue ∈ checker.run audited) :
    issue.checker = checker.name := by
  unfold run at h
  split at h
  · rw [mem_singleton] at h
    subst h
    rfl
  · obtain ⟨finding, _, rfl⟩ := mem_map.mp (mem_filter.mp h).1
    rfl

theorem Checker.run_builtin (h : checker ∈ builtin) {whole part : Audited}
    (hsemantic : whole.semantic = part.semantic) (hdataFlow : whole.dataFlow = part.dataFlow)
    (hidentifiers : whole.config.authIdentifiers = part.config.authIdentifiers)
    (hwhole : ∀ issue : Issue, whole.suppressions.isSuppressed issue.code issue.location = false) :
    checker.run part = (checker.run whole).filter fun issue =>
      !part.suppressions.isSuppressed issue.code issue.location := by
  obtain ⟨findings, hsearch, hsearch'⟩ := search_builtin h hsemantic hdataFlow hidentifiers
  simp only [run, hsearch, hsearch', hwhole, Bool.not_false, filter_true]

theorem Checker.run_of_unsilenced {findings : List Finding}
    (hsearch : checker.search audited = .ok findings) (hsilent : audited.suppressions = .none) :
    checker.run audited = findings.map checker.issue := by
  rw [run, hsearch, hsilent]
  refine filter_eq_self.mpr fun issue _ => ?_
  cases issue.location <;> rfl

/-! ## Issues of a code -/

theorem filter_code_eq {issues : List Issue} (h : ∀ issue ∈ issues, issue.code = code)
    (label : String) : issues.filter (·.code = label) = if code = label then issues else [] := by
  split_ifs with hcode
  · exact filter_eq_self.mpr fun issue hissue => decide_eq_true ((h issue hissue).trans hcode)
  · refine filter_eq_nil_iff.mpr fun issue hissue => ?_
    rwa [h issue hissue, decide_eq_true_eq]

theorem filter_generalIssues (semantic : SemanticResult) (label : String) :
    (generalIssues config semantic).filter (·.code = label) =
      (if Code.unusedFunction.label = label then
        (semantic.contract.functions.filter (isUnused semantic.facts)).map
          unusedFunction else []) ++
      (if Code.unsafeUnwrap.label = label then unwraps semantic.contract else []) ++
      (if Code.potentialDivisionByZero.label = label then
        divisions semantic.contract else []) ++
      (if Code.namingConvention.label = label then
        (semantic.contract.functions.filter fun f => !config.acceptsName f.name).map
          naming else []) := by
  have hmap {make : FunctionDef → Issue} {code : String} (hcode : ∀ f, (make f).code = code)
      (functions : List FunctionDef) : (functions.map make).filter (·.code = label) =
        if code = label then functions.map make else [] :=
    filter_code_eq (fun issue hissue => by
      obtain ⟨f, _, rfl⟩ := mem_map.mp hissue
      exact hcode f) label
  have hif {count : Nat} {issue : Issue} {issues : List Issue}
      (h : issues = if count = 0 then [] else [issue]) :
      issues.filter (·.code = label) = if issue.code = label then issues else [] :=
    filter_code_eq (fun other hother => by
      rw [h, mem_ite_nil_left, mem_singleton] at hother
      rw [hother.2]) label
  rw [generalIssues, filter_append, filter_append, filter_append,
    @hmap unusedFunction _ fun _ => rfl, @hmap naming _ fun _ => rfl,
    @hif _ _ (unwraps semantic.contract) rfl,
    @hif _ _ (divisions semantic.contract) rfl]
  rfl

/-! ## Assessments -/

/-- An assessment is another one without the issues of some checkers and without the silenced
issues. -/
structure Assessment.Filters (part whole : Assessment) (disabled codes : List LooseText)
    (given : Suppressions) : Prop where
  vulnerabilities : part.vulnerabilities = whole.vulnerabilities.filter fun issue =>
    !disabled.contains (.ofString issue.checker) && !issue.isSilenced given codes
  semanticIssues : part.semanticIssues =
    whole.semanticIssues.filter fun issue => !issue.isSilenced given codes
  issues : ∃ general, whole.issues = general ++ whole.semanticIssues ++ whole.vulnerabilities ∧
    part.issues = general.filter (fun issue => !issue.isSilenced given codes) ++
      part.semanticIssues ++ part.vulnerabilities
  metrics : part.metrics = whole.metrics
  callGraph : part.callGraph = whole.callGraph
  dataFlow : part.dataFlow = whole.dataFlow
  environment : part.environment = whole.environment

theorem Issue.isSilenced_none (issue : Issue) : issue.isSilenced .none [] = false := by
  unfold isSilenced isSuppressed
  cases issue.location <;> rfl

section Run

variable (whole part : Audited) (hsemantic : whole.semantic = part.semantic)
  (hdataFlow : whole.dataFlow = part.dataFlow)
  (hidentifiers : whole.config.authIdentifiers = part.config.authIdentifiers)
  (hwhole : ∀ issue : Issue, whole.suppressions.isSuppressed issue.code issue.location = false)

include hsemantic hdataFlow hidentifiers hwhole

theorem flatMap_run_filter (h : checkers ⊆ builtin) (disabled : List String) :
    (checkers.filter fun checker => !disabled.contains checker.name).flatMap (·.run part) =
      (checkers.flatMap (·.run whole)).filter fun issue =>
        !disabled.contains issue.checker &&
          !part.suppressions.isSuppressed issue.code issue.location := by
  induction checkers with
  | nil => rfl
  | cons first rest ih =>
      rw [cons_subset] at h
      have hfirst := first.run_builtin h.1 hsemantic hdataFlow hidentifiers hwhole
      rw [flatMap_cons, filter_append, ← ih h.2]
      cases hname : disabled.contains first.name with
      | true =>
          have hnone : (first.run whole).filter (fun issue => !disabled.contains issue.checker &&
              !part.suppressions.isSuppressed issue.code issue.location) = [] := by
            refine filter_eq_nil_iff.mpr fun issue hissue => ?_
            rw [Checker.checker_of_mem_run hissue, hname]
            simp
          rw [hnone, filter_cons_of_neg (by simp only [hname]; decide), nil_append]
      | false =>
          have hsame : (first.run whole).filter (fun issue => !disabled.contains issue.checker &&
              !part.suppressions.isSuppressed issue.code issue.location) = first.run part := by
            rw [hfirst]
            refine filter_congr fun issue hissue => ?_
            rw [Checker.checker_of_mem_run hissue, hname, Bool.not_false, Bool.true_and]
          rw [hsame, filter_cons_of_pos (by simp only [hname]; decide), flatMap_cons]

theorem issues_run_standard (disabled : List String) : ((standard disabled).run part none).issues =
      ((standard []).run whole none).issues.filter fun issue =>
        !disabled.contains issue.checker &&
          !part.suppressions.isSuppressed issue.code issue.location := by
  have hissues (names : List String) (audited : Audited) :
      ((standard names).run audited none).issues =
        (builtin.filter fun checker => !names.contains checker.name).flatMap
          (·.run audited) := by
    simp only [run, enabled_standard, CheckerRun.issues, CheckerRun.ofCheckers,
      flatMap_map]
  rw [hissues, hissues,
    flatMap_run_filter whole part hsemantic hdataFlow hidentifiers hwhole (List.Subset.refl _)]
  simp only [contains_nil, Bool.not_false, filter_true]

end Run

def Config.filtering (config : Config) (disabled codes : List LooseText) : Config :=
  { config with disabledCheckers := disabled, suppressedCodes := codes }

/-- Configurations only filter. Whatever is disabled and silenced, an assessment of an analysed
contract has the issues of the assessment in which nothing is, in the same order, without those of
the disabled checkers and without the silenced ones; and its metrics, its graphs and its environment
are the same. -/
theorem assess_only_filters (config : Config) (semantic : SemanticResult) (given : Suppressions)
    (disabled codes : List LooseText) :
    (assess (config.filtering disabled codes) semantic given).Filters
      (assess (config.filtering [] []) semantic .none) disabled codes given := by
  -- Nothing is silenced in the assessment that is filtered.
  have hwhole (issue : Issue) : ((config.filtering [] []).extend .none).isSuppressed issue.code
      issue.location = false := by
    rw [Config.isSuppressed_extend]
    exact issue.isSilenced_none
  have hall (issues : List Issue) : (issues.filter fun issue =>
      !((config.filtering [] []).extend .none).isSuppressed issue.code issue.location) =
        issues := by
    simp only [hwhole, Bool.not_false, List.filter_true]
  have hpart (issue : Issue) : ((config.filtering disabled codes).extend given).isSuppressed
      issue.code issue.location = issue.isSilenced given codes :=
    Config.isSuppressed_extend _ given issue
  have hdisabled (name : String) : (disabled.filterMap LooseText.toString?).contains name =
      disabled.contains (.ofString name) := by
    rw [Bool.eq_iff_iff, List.contains_iff_mem, List.contains_iff_mem,
      LooseText.mem_filterMap_toString?]
  constructor
  case vulnerabilities =>
    have hrun := issues_run_standard ⟨semantic, dataFlowGraph semantic, config.filtering [] [],
        (config.filtering [] []).extend .none⟩
      ⟨semantic, dataFlowGraph semantic, config.filtering disabled codes,
        (config.filtering disabled codes).extend given⟩
      rfl rfl rfl hwhole (disabled.filterMap LooseText.toString?)
    simp only [hpart, hdisabled] at hrun
    exact hrun
  case semanticIssues =>
    simp only [assess, hall, hpart]
    rfl
  case issues =>
    refine ⟨generalIssues config semantic, ?_, ?_⟩
    · simp only [assess, hall]
      rfl
    · simp only [assess, hpart]
      rfl
  all_goals rfl

end ContractAudit
