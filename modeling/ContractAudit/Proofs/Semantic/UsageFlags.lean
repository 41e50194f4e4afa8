import ContractAudit.Proofs.Semantic.Calls
import ContractAudit.Proofs.Semantic.Declarations
import ContractAudit.Proofs.Semantic.Usage

/-!
# Flags of use

After an analysis the flags of a declared name tell how the contract uses it. A constant or a data
variable is used by the identifiers that stand for it, storage by the calls that name it, and a
function by the definitions that call it or mention it. What is never used, or never read, is
reported, and nothing else is.
-/

namespace ContractAudit

open List Environment Use DeclaredTable Usage Table Builtin Parse Contract

open Facts (CallSite)

variable {f : FunctionDef} {result : ParseResult} {α : Type} {contract : Contract} {name : String}
  {form : Form} {use : Use}

/-! ## What the flags say -/

/-- An identifier that stands in a contract as an expression is recorded as standing for a thing. -/
def Contract.Resolves (contract : Contract) (resolution : Resolution) : Prop :=
  ∃ info word bound, contract.Occurs info word bound ∧
    (analyzeContract contract).facts.resolutions.get? info.id = some resolution

/-- A call in a contract of one of some functions names storage by its first argument. -/
def Contract.CallsOn (contract : Contract) (callees : List String) (name : String) : Prop :=
  ∃ form ∈ contract.body, ∃ info callee node rest, callee ∈ callees ∧
    CallWithin form.children info callee (.identifier node name :: rest)

/-- The warning about storage that is never read: it is only written, or it is not used. -/
def unreadWarning (writeOnly unused : Code) (what name : String) (accessed modified : Bool)
    (place : Location) : Option Diagnostic :=
  if accessed then none
  else if modified then
    some (.warning .semantic writeOnly s!"{what} '{name}' is modified but never read" place)
  else some (.warning .semantic unused s!"{what} '{name}' is never accessed" place)

/-! ## Uses -/

theorem Form.mem_uses_iff (hnumbers : (contract.postorder.map (·.info.id)).Nodup)
    (hform : form ∈ contract.body) :
    use ∈ form.uses contract.declared ↔ (∃ info word bound resolution, form.Occurs info word bound ∧
        (analyzeContract contract).facts.resolutions.get? info.id = some resolution ∧
          ofResolution? (form.name?.getD "") resolution = some use) ∨
      ∃ info callee args, CallWithin form.children info callee args ∧
        use ∈ CallSite.uses contract.declared (form.name?.getD "")
          ⟨info, args, .ofCall callee args⟩ := by
  have hrecorded {mention : Mention} (hmention : mention ∈ form.mentions) :=
    get?_resolutions_of_mem hnumbers (mem_flatMap.mpr ⟨form, hform, hmention⟩)
  rw [Form.uses, mem_usesOf]
  refine or_congr ⟨?_, ?_⟩ ⟨?_, ?_⟩
  · rintro ⟨⟨info, word, role⟩, hmention, huse⟩
    cases role with
    | expression all =>
        obtain ⟨resolution, hresolution, huse⟩ := Option.bind_eq_some_iff.mp huse
        obtain ⟨bound, hoccurs, _⟩ := Form.occurs_of_mem_mentions hmention
        exact ⟨info, word, bound, resolution, hoccurs, (hrecorded hmention).trans hresolution, huse⟩
    | _ => cases huse
  · rintro ⟨info, word, bound, resolution, hoccurs, hget, huse⟩
    obtain ⟨all, hmention, _⟩ := hoccurs.exists_mention
    rw [hrecorded hmention] at hget
    exact ⟨_, hmention, Option.bind_eq_some_iff.mpr ⟨resolution, hget, huse⟩⟩
  · rintro ⟨site, hsite, huse⟩
    rw [← (Expr.callsList_perm _).mem_iff, Expr.mem_callsList] at hsite
    obtain ⟨expr, hexpr, info, callee, args, hwithin, rfl⟩ := hsite
    exact ⟨info, callee, args, ⟨expr, hexpr, hwithin⟩, huse⟩
  · rintro ⟨info, callee, args, hcall, huse⟩
    exact ⟨_, (Expr.callsList_perm _).mem_iff.mp (mem_callsList_iff.mpr hcall), huse⟩

theorem Contract.mem_uses_iff (hnumbers : (contract.postorder.map (·.info.id)).Nodup)
    (hfunction : ∀ owner, use ≠ .function use.target.name owner) (name : String)
    (callees : List String)
    (hcall : ∀ callee node word rest, ofCall? callee (.identifier node word :: rest) = some use ↔
      callee ∈ callees ∧ word = name) :
    use ∈ contract.uses ↔ (ofResolution? "" use.target = some use ∧
      contract.Resolves use.target) ∨ contract.CallsOn callees name := by
  have hresolution (owner : String) (resolution : Resolution) :
      ofResolution? owner resolution = some use ↔
        resolution = use.target ∧ ofResolution? "" use.target = some use := by
    obtain ⟨kind, found⟩ := resolution
    cases use with
    | function target owner => exact absurd rfl (hfunction owner)
    | _ => cases kind <;> simp [ofResolution?, target, eq_comm, and_comm]
  have hsite (owner : String) (info : NodeInfo) (callee : String) (args : List Expr) :
      use ∈ CallSite.uses contract.declared owner ⟨info, args, .ofCall callee args⟩ ↔
        ∃ node rest, callee ∈ callees ∧ args = .identifier node name :: rest := by
    have hother : use ∉ if contract.declared .function callee then [function callee owner]
        else [] := by
      split_ifs
      · rintro (_ | ⟨_, ⟨⟩⟩)
        exact hfunction owner rfl
      · exact not_mem_nil
    refine (mem_append.trans (or_iff_left hother)).trans (Option.mem_toList.trans ?_)
    show ofCall? callee args = some use ↔ _
    rcases args with _ | ⟨first, rest⟩
    · simp [ofCall?]
    · cases first with
      | identifier node word => simp [hcall, eq_comm]
      | _ => simp [ofCall?]
  rw [uses, mem_flatMap]
  constructor
  · rintro ⟨form, hform, huse⟩
    rcases (Form.mem_uses_iff hnumbers hform).mp huse with
      ⟨info, word, bound, _, hoccurs, hget, huse⟩ | ⟨info, callee, args, hwithin, huse⟩
    · obtain ⟨rfl, hself⟩ := (hresolution _ _).mp huse
      exact .inl ⟨hself, info, word, bound, ⟨form, hform, hoccurs⟩, hget⟩
    · obtain ⟨node, rest, hcallee, rfl⟩ := (hsite _ _ _ _).mp huse
      exact .inr ⟨form, hform, info, callee, node, rest, hcallee, hwithin⟩
  · rintro (⟨hself, info, word, bound, ⟨form, hform, hoccurs⟩, hget⟩ |
      ⟨form, hform, info, callee, node, rest, hcallee, hwithin⟩)
    · exact ⟨form, hform, (Form.mem_uses_iff hnumbers hform).mpr
        (.inl ⟨info, word, bound, _, hoccurs,
        hget, (hresolution _ _).mpr ⟨rfl, hself⟩⟩)⟩
    · exact ⟨form, hform, (Form.mem_uses_iff hnumbers hform).mpr (.inr ⟨info, callee, _, hwithin,
        (hsite _ _ _ _).mpr ⟨node, rest, hcallee, rfl⟩⟩)⟩

theorem DeclaredTable.made_of_get? (declared : DeclaredTable α) {forms : List Form}
    {entry : α} (h : (declared.table (empty.declareAll forms).1).get? name = some entry) :
    name ≠ placeholder ∧ ∃ form ∈ forms, declared.made? form = some (name, entry) := by
  rw [declared.table_declareAll_empty, get?_ofFirst] at h
  obtain ⟨⟨found, _⟩, hfind, rfl⟩ := Option.map_eq_some_iff.mp h
  obtain rfl : found = name := by simpa using find?_some hfind
  obtain ⟨hmade, hname⟩ := mem_filter.mp (mem_of_find?_eq_some hfind)
  obtain ⟨form, hform, hmade⟩ := mem_filterMap.mp hmade
  exact ⟨by simpa using hname, form, hform, hmade⟩

section Flags

variable (hnumbers : (contract.postorder.map (·.info.id)).Nodup)

include hnumbers

theorem mem_uses_constant : .constant name ∈ contract.uses ↔
    contract.Resolves ⟨.constant, name⟩ := by
  refine (contract.mem_uses_iff hnumbers (by simp) name [] fun callee node word rest => ?_).trans ?_
  · simp only [ofCall?]
    split_ifs <;> simp
  · simp [ofResolution?, target, Contract.CallsOn]

theorem mem_uses_variable (hname : name ≠ placeholder) (access : Access) :
    .variable name access ∈ contract.uses ↔ (access = .read ∧ contract.Resolves ⟨.variable, name⟩) ∨
        contract.CallsOn [if access = .read then "var-get" else "var-set"] name := by
  refine (contract.mem_uses_iff hnumbers (by simp) name _ fun callee node word rest => ?_).trans
    (or_congr_left ?_)
  · cases access <;> grind [ofCall?, mapOperations, variableOperations,
      tokenOperations]
  · cases access <;> simp [ofResolution?, target]

theorem mem_uses_map (hname : name ≠ placeholder) (access : Access) :
    .map name access ∈ contract.uses ↔ contract.CallsOn
      (if access = .read then ["map-get?"] else ["map-set", "map-insert", "map-delete"]) name := by
  refine (contract.mem_uses_iff hnumbers (by simp) name _ fun callee node word rest => ?_).trans
    (or_iff_right ?_)
  · cases access <;> grind [ofCall?, mapOperations, variableOperations]
  · simp [ofResolution?, target]

theorem used_iff {entry : ConstantEntry}
    (h : (analyzeContract contract).environment.constants.get? name = some entry) :
    entry.used = true ↔ contract.Resolves ⟨.constant, name⟩ := by
  have hentries := congrArg (·.constants.get? name) (@untyped_analyzeContract contract)
  simp only [untyped, mark, get?_mapValues, h] at hentries
  cases hmade : (empty.declareAll contract.body).1.constants.get? name with
  | none => simp [hmade] at hentries
  | some made =>
      obtain ⟨_, form, _, hform⟩ := made_of_get? .constants hmade
      have hfresh : made.used = false := by
        cases form <;> cases hform
        rfl
      have hused : entry.used = decide (.constant name ∈ contract.uses) := by
        simpa [hmade, ConstantEntry.mark, hfresh] using
          congrArg (Option.map ConstantEntry.used) hentries
      rw [hused, decide_eq_true_eq, mem_uses_constant hnumbers]

theorem variable_flags {entry : VariableEntry}
    (h : (analyzeContract contract).environment.dataVars.get? name = some entry) :
    (entry.accessed = true ↔
        contract.CallsOn ["var-get"] name ∨ contract.Resolves ⟨.variable, name⟩) ∧
      (entry.modified = true ↔ contract.CallsOn ["var-set"] name) := by
  have hentries : (analyzeContract contract).environment.dataVars =
      (empty.declareAll contract.body).1.dataVars.mapValues
        (VariableEntry.mark contract.uses) :=
    congrArg dataVars untyped_analyzeContract
  rw [hentries, get?_mapValues] at h
  obtain ⟨made, hmade, rfl⟩ := Option.map_eq_some_iff.mp h
  obtain ⟨hname, form, _, hform⟩ := made_of_get? .dataVars hmade
  have hfresh : made.accessed = false ∧ made.modified = false := by
    cases form <;> cases hform
    exact ⟨rfl, rfl⟩
  simp [VariableEntry.mark, hfresh, mem_uses_variable hnumbers hname, or_comm]

theorem map_flags {entry : MapEntry}
    (h : (analyzeContract contract).environment.maps.get? name = some entry) :
    (entry.accessed = true ↔ contract.CallsOn ["map-get?"] name) ∧
      (entry.modified = true ↔ contract.CallsOn ["map-set", "map-insert", "map-delete"] name) := by
  have hentries : (analyzeContract contract).environment.maps =
      (empty.declareAll contract.body).1.maps.mapValues (MapEntry.mark contract.uses) :=
    congrArg maps untyped_analyzeContract
  rw [hentries, get?_mapValues] at h
  obtain ⟨made, hmade, rfl⟩ := Option.map_eq_some_iff.mp h
  obtain ⟨hname, form, _, hform⟩ := made_of_get? .maps hmade
  have hfresh : made.accessed = false ∧ made.modified = false := by
    cases form <;> cases hform
    exact ⟨rfl, rfl⟩
  simp [MapEntry.mark, hfresh, mem_uses_map hnumbers hname]

end Flags

/-! ## Warnings -/

theorem filter_filterMap_of_code {warn : α → Option Diagnostic} {keep : Code → Bool}
    {kept : Bool} (h : ∀ entry warning, warn entry = some warning → keep warning.code = kept)
    (entries : List α) :
    (entries.filterMap warn).filter (fun warning => keep warning.code) =
      if kept then entries.filterMap warn else [] := by
  cases kept with
  | false =>
      refine filter_eq_nil_iff.mpr fun warning hmem => ?_
      obtain ⟨entry, _, hwarn⟩ := mem_filterMap.mp hmem
      simp [h entry warning hwarn]
  | true =>
      refine filter_eq_self.mpr fun warning hmem => ?_
      obtain ⟨entry, _, hwarn⟩ := mem_filterMap.mp hmem
      exact h entry warning hwarn

theorem filter_warnings (contract : Contract) (keep : Code → Bool)
    (htypes : keep .typeMismatch = false)
    (hvariables : keep .unusedVariable = keep .writeOnlyVariable)
    (hmaps : keep .unusedMap = keep .writeOnlyMap) :
    (analyzeContract contract).warnings.filter (fun warning => keep warning.code) =
      (if keep .unusedFunction then
        (analyzeContract contract).environment.functions.entries.filterMap
        fun entry => unusedFunction (analyzeContract contract).facts entry.1 entry.2 else []) ++
      (if keep .unusedConstant then
        (analyzeContract contract).environment.constants.entries.filterMap
        fun entry => unusedConstant entry.1 entry.2 else []) ++
      (if keep .writeOnlyVariable then
        (analyzeContract contract).environment.dataVars.entries.filterMap fun entry =>
          unreadVariable entry.1 entry.2 else []) ++
      (if keep .writeOnlyMap then (analyzeContract contract).environment.maps.entries.filterMap
        fun entry => unreadMap entry.1 entry.2 else []) := by
  have husage : (analyzeContract contract).warnings.filter (fun warning => keep warning.code) =
      ((analyzeContract contract).warnings.filter (·.code ≠ .typeMismatch)).filter fun warning =>
        keep warning.code := by
    rw [filter_filter]
    refine filter_congr fun warning _ => ?_
    by_cases hcode : warning.code = .typeMismatch <;> simp [hcode, htypes]
  rw [husage, filter_warnings_analyzeContract, warnings, filter_append,
    filter_append, filter_append]
  congr 1
  · congr 1
    · congr 1
      · exact filter_filterMap_of_code (fun _ _ h => by rw [code_unusedFunction h]) _
      · exact filter_filterMap_of_code (fun _ _ h => by rw [code_unusedConstant h]) _
    · refine filter_filterMap_of_code (fun _ _ h => ?_) _
      rcases code_unreadVariable h with hcode | hcode <;> rw [hcode]
      exact hvariables
  · refine filter_filterMap_of_code (fun _ _ h => ?_) _
    rcases code_unreadMap h with hcode | hcode <;> rw [hcode]
    exact hmaps

theorem mem_warnings_unusedFunction {location : Location} :
    .warning .semantic .unusedFunction s!"Private function '{name}' is never called" location ∈
        (analyzeContract contract).warnings ↔
      ∃ entry, (name, entry) ∈ (analyzeContract contract).environment.functions.entries ∧
        entry.visibility = .internal ∧ entry.span.start = location ∧
          ∀ owner ∈ (analyzeContract contract).facts.referrers name, owner = name := by
  have hkept := filter_warnings contract (decide <| · = .unusedFunction) rfl rfl rfl
  simp only [decide_true, if_true, reduceCtorEq, decide_false, Bool.false_eq_true, if_false,
    append_nil] at hkept
  have hmem (warning : Diagnostic) (hcode : warning.code = .unusedFunction) :
      warning ∈ (analyzeContract contract).warnings ↔ warning ∈
        (analyzeContract contract).warnings.filter (decide <| ·.code = .unusedFunction) := by
    simp [hcode]
  rw [hmem _ rfl, hkept, mem_filterMap]
  constructor
  · rintro ⟨⟨other, entry⟩, hentry, hwarning⟩
    simp only [unusedFunction, Option.ite_none_right_eq_some, Bool.and_eq_true,
      decide_eq_true_eq, all_eq_true, Option.some.injEq] at hwarning
    obtain ⟨⟨hprivate, honly⟩, hwarning⟩ := hwarning
    obtain rfl : other = name := by
      simpa [Diagnostic.warning, toString] using congrArg Diagnostic.message hwarning
    exact ⟨entry, hentry, hprivate, congrArg Diagnostic.location hwarning, honly⟩
  · rintro ⟨entry, hentry, hprivate, rfl, honly⟩
    exact ⟨_, hentry, by simpa [unusedFunction, hprivate] using honly⟩

/-- The flags of every name that a parsed contract declares are exact, and so are the warnings about
data variables and maps that are never read: one about each that is written only, one about each
that is not used at all, and none about those that are read. -/
theorem usage_flags_exact {tokens : List Token} (hparse : parseTokens tokens = .ok result) :
    (∀ name entry, (analyzeContract result.contract).environment.constants.get? name = some entry →
        (entry.used = true ↔ result.contract.Resolves ⟨.constant, name⟩)) ∧
    (∀ name entry, (analyzeContract result.contract).environment.dataVars.get? name = some entry →
        (entry.accessed = true ↔ result.contract.CallsOn ["var-get"] name ∨
          result.contract.Resolves ⟨.variable, name⟩) ∧
        (entry.modified = true ↔ result.contract.CallsOn ["var-set"] name)) ∧
    (∀ name entry, (analyzeContract result.contract).environment.maps.get? name = some entry →
        (entry.accessed = true ↔ result.contract.CallsOn ["map-get?"] name) ∧
        (entry.modified = true ↔
          result.contract.CallsOn ["map-set", "map-insert", "map-delete"] name)) ∧
    (analyzeContract result.contract).warnings.filter (fun warning =>
        [.writeOnlyVariable, .unusedVariable].contains warning.code) =
      ((analyzeContract result.contract).environment.dataVars.entries.filterMap fun entry =>
        unreadWarning .writeOnlyVariable .unusedVariable "Variable" entry.1 entry.2.accessed
          entry.2.modified entry.2.span.start) ∧
    (analyzeContract result.contract).warnings.filter (fun warning =>
        [.writeOnlyMap, .unusedMap].contains warning.code) =
      ((analyzeContract result.contract).environment.maps.entries.filterMap fun entry =>
        unreadWarning .writeOnlyMap .unusedMap "Map" entry.1 entry.2.accessed entry.2.modified
          entry.2.span.start) := by
  have hnumbers := (parseTokens_made hparse).1
  refine ⟨fun _ _ => used_iff hnumbers, fun _ _ => variable_flags hnumbers,
    fun _ _ => map_flags hnumbers, ?_, ?_⟩
  · exact (filter_warnings result.contract _ rfl rfl rfl).trans (List.append_nil _)
  · exact filter_warnings result.contract _ rfl rfl rfl

def flagged : String :=
  "(define-constant rate u1) (define-constant fee u2) (define-data-var spare uint rate) " ++
    "(define-data-var total uint u0) (define-map seen uint uint) (define-public (f (fee uint)) " ++
    "(begin (var-set total fee) (map-set seen u1 spare) (ok (map-get? seen fee))))"

theorem usage_flags_exact_flagged :
    ∃ result, parse flagged = .ok result ∧ result.contract.Resolves ⟨.constant, "rate"⟩ ∧
      ¬result.contract.Resolves ⟨.constant, "fee"⟩ ∧
      (result.contract.CallsOn ["var-get"] "spare" ∨
        result.contract.Resolves ⟨.variable, "spare"⟩) ∧
      result.contract.CallsOn ["var-set"] "total" ∧ ¬result.contract.CallsOn ["var-get"] "total" ∧
      result.contract.CallsOn ["map-get?"] "seen" ∧
      ((analyzeContract result.contract).warnings.filter fun warning =>
        [.writeOnlyVariable, .unusedVariable].contains warning.code).map Diagnostic.message =
          ["Variable 'total' is modified but never read"] := by
  obtain ⟨result, hparse, ⟨_, hrate, hused⟩, ⟨_, hfee, hunused⟩, ⟨_, hspare, hread⟩,
    ⟨_, htotal, hunread, hwritten⟩, ⟨_, hseen, hlooked⟩, hwarnings⟩ :
      ∃ result, parse flagged = .ok result ∧
        (∃ entry ∈ (analyzeContract result.contract).environment.constants.get? "rate",
          entry.used = true) ∧
        (∃ entry ∈ (analyzeContract result.contract).environment.constants.get? "fee",
          ¬entry.used = true) ∧
        (∃ entry ∈ (analyzeContract result.contract).environment.dataVars.get? "spare",
          entry.accessed = true) ∧
        (∃ entry ∈ (analyzeContract result.contract).environment.dataVars.get? "total",
          ¬entry.accessed = true ∧ entry.modified = true) ∧
        (∃ entry ∈ (analyzeContract result.contract).environment.maps.get? "seen",
          entry.accessed = true) ∧
        ((analyzeContract result.contract).warnings.filter fun warning =>
          [.writeOnlyVariable, .unusedVariable].contains warning.code).map Diagnostic.message =
            ["Variable 'total' is modified but never read"] :=
    exists_parse (append_eq_ofList (append_eq_ofList rfl rfl) rfl) (by decide +kernel)
  obtain ⟨hconstants, hvariables, hmaps, _⟩ := usage_flags_exact hparse
  exact ⟨result, hparse, (hconstants _ _ hrate).mp hused, mt (hconstants _ _ hfee).mpr hunused,
    (hvariables _ _ hspare).1.mp hread, (hvariables _ _ htotal).2.mp hwritten,
    fun hcall => hunread ((hvariables _ _ htotal).1.mpr (.inl hcall)),
      (hmaps _ _ hseen).1.mp hlooked,
    hwarnings⟩

/-! ## References to functions -/

/-- A form calls a function or has an identifier that is recorded as standing for it. -/
def Form.RefersTo (contract : Contract) (form : Form) (name : String) : Prop :=
  (∃ info args, CallWithin form.children info name args) ∨ ∃ info word bound,
    form.Occurs info word bound ∧
      (analyzeContract contract).facts.resolutions.get? info.id = some ⟨.function, name⟩

theorem Form.RefersTo.exists_name (h : form.RefersTo contract name) :
    ∃ owner, form.name? = some owner := by
  cases form
  case useTrait | implTrait =>
    rcases h with ⟨_, _, _, hmem, _⟩ | ⟨_, _, _, hoccurs, _⟩
    · cases hmem
    · cases hoccurs
  all_goals exact ⟨_, rfl⟩

theorem mem_referrers_iff (hnumbers : (contract.postorder.map (·.info.id)).Nodup)
    (hdeclared : contract.declared .function name = true) {owner : String} :
    owner ∈ (analyzeContract contract).facts.referrers name ↔
      ∃ form ∈ contract.body, form.name?.getD "" = owner ∧ form.RefersTo contract name := by
  have hresolution (found : String) (resolution : Resolution) :
      ofResolution? found resolution = some (.function name owner) ↔
        resolution = ⟨.function, name⟩ ∧ found = owner := by
    obtain ⟨kind, target⟩ := resolution
    cases kind <;> simp [ofResolution?]
  have hsite (found : String) (info : NodeInfo) (callee : String) (args : List Expr) :
      .function name owner ∈ CallSite.uses contract.declared found
        ⟨info, args, .ofCall callee args⟩ ↔ callee = name ∧ found = owner := by
    have hstorage : .function name owner ∉ (ofCall? callee args).toList := by
      unfold ofCall?
      split
      · split_ifs <;> simp
      · simp
    refine (mem_append.trans (or_iff_right hstorage)).trans ?_
    show _ ∈ (if contract.declared .function callee then [function callee found] else []) ↔ _
    by_cases hcallee : callee = name
    · simp [hcallee, hdeclared, eq_comm]
    · split_ifs <;> simp [hcallee, Ne.symm hcallee]
  rw [mem_referrers_analyzeContract, uses, mem_flatMap]
  refine exists_congr fun form => and_congr_right fun hform => ?_
  rw [Form.mem_uses_iff hnumbers hform]
  simp only [hresolution, hsite, Form.RefersTo]
  grind

theorem get?_functions_analyzeContract (hnames : (definitions contract.body).Nodup)
    (hf : .function f ∈ contract.body) (hname : f.name ≠ placeholder) :
    ∃ entry, (analyzeContract contract).environment.functions.get? f.name = some entry ∧
      entry.visibility = f.visibility ∧ entry.span = f.info.span := by
  have hmade : (f.name, _) ∈ functions.entries contract.body :=
    mem_filter.mpr ⟨mem_filterMap.mpr ⟨_, hf, rfl⟩, by simpa using hname⟩
  rw [← functions.entries_declareAll hnames, ← get?_eq_some_iff] at hmade
  have hentries := congrArg (·.functions.get? f.name) (@untyped_analyzeContract contract)
  simp only [untyped, mark, get?_mapValues] at hentries
  rw [show (empty.declareAll contract.body).1.functions.get? f.name = _ from hmade]
    at hentries
  obtain ⟨entry, hentry, heq⟩ := Option.map_eq_some_iff.mp hentries
  exact ⟨entry, hentry, congrArg FunctionEntry.visibility heq, congrArg FunctionEntry.span heq⟩

theorem nodup_definitions (herrors : (analyzeContract contract).errors = []) :
    (definitions contract.body).Nodup := by
  rw [(analyzeContract_met _).2, append_eq_nil_iff] at herrors
  exact errors_declareAll_empty_iff.mp herrors.1

/-- A private function is reported exactly if no definition of another name refers to it. -/
theorem unusedFunction_reported_iff {tokens : List Token} (hparse : parseTokens tokens = .ok result)
    (herrors : (analyzeContract result.contract).errors = [])
    (hf : .function f ∈ result.contract.body) (hprivate : f.visibility = .internal) :
    .warning .semantic .unusedFunction s!"Private function '{f.name}' is never called" f.location ∈
        (analyzeContract result.contract).warnings ↔
      f.name ≠ Parse.placeholder ∧ ∀ form ∈ result.contract.body,
        form.name? ≠ some f.name → ¬form.RefersTo result.contract f.name := by
  have hnumbers := (parseTokens_made hparse).1
  have hnames := nodup_definitions herrors
  have hdeclared (hname : f.name ≠ Parse.placeholder) :
      result.contract.declared .function f.name = true :=
    Contract.declared_iff.mpr ⟨List.any_eq_true.mpr ⟨_, hf, by simp [Form.defines?]⟩, hname⟩
  simp only [mem_warnings_unusedFunction, ← Table.get?_eq_some_iff]
  constructor
  · rintro ⟨entry, hget, _, _, honly⟩
    have hname : f.name ≠ Parse.placeholder := by
      refine ((contains_functions_analyzeContract result.contract f.name).mp ?_).1
      rw [← Table.isSome_get?, hget]
      rfl
    refine ⟨hname, fun form hform hother hrefers => hother ?_⟩
    obtain ⟨owner, howner⟩ := hrefers.exists_name
    have hself := honly owner ((mem_referrers_iff hnumbers (hdeclared hname)).mpr
      ⟨form, hform, by simp [howner], hrefers⟩)
    rw [howner, hself]
  · rintro ⟨hname, hothers⟩
    obtain ⟨entry, hget, hvisibility, hspan⟩ := get?_functions_analyzeContract hnames hf hname
    refine ⟨entry, hget, hvisibility.trans hprivate, congrArg Span.start hspan,
      fun owner howner => ?_⟩
    obtain ⟨form, hform, howns, hrefers⟩ := (mem_referrers_iff hnumbers (hdeclared hname)).mp howner
    by_contra hne
    exact hothers form hform (fun hsame => hne (by simpa [hsame] using howns.symm)) hrefers

def unusedHelper : String :=
  "(define-private (helper) (helper)) (define-private (double (n uint)) (+ n n)) " ++
    "(define-constant pairs (map double (list u1 u2)))"

theorem unusedFunction_reported_unusedHelper :
    ∃ result, parse unusedHelper = .ok result ∧ (analyzeContract result.contract).errors = [] ∧
      (∃ f, .function f ∈ result.contract.body ∧ f.name = "helper" ∧ ∀ form ∈ result.contract.body,
        form.name? ≠ some f.name → ¬form.RefersTo result.contract f.name) ∧
      ∃ f, .function f ∈ result.contract.body ∧ f.name = "double" ∧ ∃ form ∈ result.contract.body,
        form.name? ≠ some f.name ∧ form.RefersTo result.contract f.name := by
  obtain ⟨result, hparse, herrors, ⟨helper, hhelper, hname, hprivate, hwarned⟩,
    double, hdouble, hname', hprivate', hunwarned⟩ :
      ∃ result, parse unusedHelper = .ok result ∧ (analyzeContract result.contract).errors = [] ∧
        (∃ f ∈ result.contract.functions, f.name = "helper" ∧ f.visibility = .internal ∧
          .warning .semantic .unusedFunction s!"Private function '{f.name}' is never called"
            f.location ∈ (analyzeContract result.contract).warnings) ∧
        ∃ f ∈ result.contract.functions, f.name = "double" ∧ f.visibility = .internal ∧
          .warning .semantic .unusedFunction s!"Private function '{f.name}' is never called"
            f.location ∉ (analyzeContract result.contract).warnings :=
    exists_parse (append_eq_ofList rfl rfl) (by decide +kernel)
  rw [Contract.mem_functions] at hhelper hdouble
  refine ⟨result, hparse, herrors, ⟨helper, hhelper, hname,
    ((unusedFunction_reported_iff hparse herrors hhelper hprivate).mp hwarned).2⟩, double, hdouble,
    hname', ?_⟩
  by_contra hnone
  refine hunwarned ((unusedFunction_reported_iff hparse herrors hdouble hprivate').mpr
    ⟨by rw [hname']; decide, fun form hform hother hrefers => hnone ?_⟩)
  exact ⟨form, hform, hother, hrefers⟩

def calledByNamesake : String :=
  "(define-private (f) u1)\n(define-constant f (f))"

/-- A function is reported although another definition calls it, if that one has its name. -/
theorem unusedFunction_reported_though_called :
    ∃ result f, parse calledByNamesake = .ok result ∧ result.errors = [] ∧
      (analyzeContract result.contract).errors = [] ∧ .function f ∈ result.contract.body ∧
      f.visibility = .internal ∧
      .warning .semantic .unusedFunction
        s!"Private function '{f.name}' is never called" f.location ∈
        (analyzeContract result.contract).warnings ∧
      ∃ form ∈ result.contract.body, form ≠ .function f ∧ form.RefersTo result.contract f.name := by
  obtain ⟨result, hparse, hclean, herrors, f, hf, hname, hprivate, hwarned, form, hform, hother,
    hcalls⟩ : ∃ result, parse calledByNamesake = .ok result ∧ result.errors = [] ∧
      (analyzeContract result.contract).errors = [] ∧
      ∃ f ∈ result.contract.functions, f.name = "f" ∧ f.visibility = .internal ∧
        .warning .semantic .unusedFunction s!"Private function '{f.name}' is never called"
          f.location ∈ (analyzeContract result.contract).warnings ∧
        ∃ form ∈ result.contract.body, form.function? = none ∧
          "f" ∈ (Expr.callsList form.children).map (·.info.name) :=
    exists_parse rfl (by decide +kernel)
  refine ⟨result, f, hparse, hclean, herrors, Contract.mem_functions.mp hf, hprivate, hwarned, form,
    hform, ?_, .inl (hname ▸ mem_names_callsList.mp hcalls)⟩
  rintro rfl
  cases hother

end ContractAudit
