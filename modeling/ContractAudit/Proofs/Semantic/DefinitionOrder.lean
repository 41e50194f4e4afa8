import ContractAudit.Proofs.Semantic.Calls
import ContractAudit.Proofs.Semantic.Declarations
import ContractAudit.Proofs.Semantic.Usage

/-!
# The order of definitions

The forms of a contract are visited after all of them have been declared, so what an identifier
refers to and what is marked as used does not depend on the order of the forms. Only the types that
are inferred do, and with them the warnings about types.
-/

namespace ContractAudit

open Contract Environment Table ConstantEntry Mention List

open Facts (CallSite)

/-! ## Environments with the same entries -/

/-- That two environments have the same entries, in whatever order. -/
structure Environment.SameEntries (first second : Environment) : Prop where
  functions : first.functions.entries.Perm second.functions.entries
  constants : first.constants.entries.Perm second.constants.entries
  dataVars : first.dataVars.entries.Perm second.dataVars.entries
  maps : first.maps.entries.Perm second.maps.entries
  traits : first.traits.entries.Perm second.traits.entries
  tokens : first.tokens.entries.Perm second.tokens.entries

namespace Environment

variable {first second : Environment}

theorem SameEntries.untyped (h : first.SameEntries second) :
    first.untyped.SameEntries second.untyped :=
  { h with
    functions := h.functions.map _
    constants := h.constants.map _ }

theorem SameEntries.mark (h : first.SameEntries second) (uses : List Use) :
    (first.mark uses).SameEntries (second.mark uses) :=
  { h with
    constants := h.constants.map _
    dataVars := h.dataVars.map _
    maps := h.maps.map _
    tokens := h.tokens.map _ }

theorem declareAll_sameEntries {forms others : List Form} (hperm : forms.Perm others)
    (h : (definitions others).Nodup) :
    (empty.declareAll forms).1.SameEntries (empty.declareAll others).1 := by
  have h' : (definitions forms).Nodup := ((hperm.filterMap _).filter _).nodup_iff.mpr h
  have htable {α : Type} (declared : DeclaredTable α) :
      (declared.table (empty.declareAll forms).1).entries.Perm
        (declared.table (empty.declareAll others).1).entries := by
    rw [declared.entries_declareAll h, declared.entries_declareAll h']
    exact declared.entries_perm hperm
  exact ⟨htable .functions, htable .constants, htable .dataVars, htable .maps, htable .traits,
    htable .tokens⟩

end Environment

/-! ## Warnings about what is never used -/

theorem Usage.warnings_untyped (environment : Environment) (facts : Facts) :
    warnings environment.untyped facts = warnings environment facts := by
  simp only [warnings, untyped, mapValues, filterMap_map]
  rfl

theorem Usage.warnings_perm {first second : Environment} (h : first.SameEntries second)
    {facts others : Facts}
    (hreferrers : ∀ function owner, owner ∈ facts.referrers function ↔
      owner ∈ others.referrers function) :
    (warnings first facts).Perm (warnings second others) := by
  have hfunction : unusedFunction facts = unusedFunction others := by
    funext name entry
    have hall : (facts.referrers name).all (· = name) = (others.referrers name).all (· = name) := by
      rw [Bool.eq_iff_iff, all_eq_true, all_eq_true]
      simp only [hreferrers]
    rw [unusedFunction, hall, unusedFunction]
  unfold warnings
  rw [hfunction]
  exact (((h.functions.filterMap _).append (h.constants.filterMap _)).append
    (h.dataVars.filterMap _)).append (h.maps.filterMap _)

/-! ## Analyses with the same names -/

/-- That two analyses agree in all that they find out about names: what is reported, but for
mismatches of types, what is marked as used, and what is recorded about identifiers, calls and
references. -/
structure SemanticResult.SameNames (first second : SemanticResult) : Prop where
  errors : first.errors.Perm second.errors
  warnings : (first.warnings.filter (·.code ≠ .typeMismatch)).Perm
    (second.warnings.filter (·.code ≠ .typeMismatch))
  constants : ∀ name, (first.environment.constants.get? name).map used =
    (second.environment.constants.get? name).map used
  dataVars : ∀ name,
    (first.environment.dataVars.get? name).map (fun entry => (entry.accessed, entry.modified)) =
      (second.environment.dataVars.get? name).map fun entry => (entry.accessed, entry.modified)
  maps : ∀ name,
    (first.environment.maps.get? name).map (fun entry => (entry.accessed, entry.modified)) =
      (second.environment.maps.get? name).map fun entry => (entry.accessed, entry.modified)
  tokens : ∀ name,
    (first.environment.tokens.get? name).map (fun entry => (entry.accessed, entry.modified)) =
      (second.environment.tokens.get? name).map fun entry => (entry.accessed, entry.modified)
  resolutions : ∀ id, first.facts.resolutions.get? id = second.facts.resolutions.get? id
  calls : ∀ id, first.facts.calls.get? id = second.facts.calls.get? id
  referred : ∀ function,
    function ∈ first.facts.references.keys ↔ function ∈ second.facts.references.keys
  referrers : ∀ function owner,
    owner ∈ first.facts.referrers function ↔ owner ∈ second.facts.referrers function

/-! ## Contracts with the same forms -/

section SameForms

variable {first second : Contract} (hperm : first.body.Perm second.body)

include hperm

theorem Contract.declared_eq_of_perm : first.declared = second.declared := by
  funext kind name
  have hdefines : first.defines kind name = second.defines kind name := hperm.any_eq
  rw [Bool.eq_iff_iff, declared_iff, declared_iff, hdefines]

theorem Contract.mentions_perm : first.mentions.Perm second.mentions :=
  hperm.flatMap_right _

theorem Contract.callSites_perm : (callSites first.visited).Perm (callSites second.visited) :=
  (hperm.flatMap_right _).filterMap _

theorem Contract.mem_uses_iff_of_perm {use : Use} : use ∈ first.uses ↔ use ∈ second.uses := by
  rw [uses, uses, declared_eq_of_perm hperm]
  exact (hperm.flatMap_right _).mem_iff

theorem get?_resolutions_of_perm (hnumbers : (second.postorder.map (·.info.id)).Nodup) (id : Nat) :
    (analyzeContract first).facts.resolutions.get? id =
      (analyzeContract second).facts.resolutions.get? id := by
  have hsecond := nodup_id_mentions hnumbers
  have hids := (mentions_perm hperm).map (·.info.id)
  have hfirst := hids.nodup_iff.mpr hsecond
  rw [(analyzeContract_met first).1, (analyzeContract_met second).1,
    declared_eq_of_perm hperm]
  by_cases hid : id ∈ second.mentions.map (·.info.id)
  · obtain ⟨mention, hmention, rfl⟩ := mem_map.mp hid
    rw [get?_foldl_enter hsecond hmention rfl,
      get?_foldl_enter hfirst ((mentions_perm hperm).mem_iff.mpr hmention) rfl]
  · rw [get?_foldl_enter_of_not_mem hid,
      get?_foldl_enter_of_not_mem fun hmem => hid (hids.mem_iff.mp hmem)]

theorem get?_calls_of_perm (hnumbers : (second.postorder.map (·.info.id)).Nodup) (id : Nat) :
    (analyzeContract first).facts.calls.get? id = (analyzeContract second).facts.calls.get? id := by
  have hsecond : ((callSites second.visited).map (·.node.id)).Nodup :=
    ((Node.map_id_filterMap_sublist (fun _ _ => Node.id_of_callSite?) _).trans
      (visited_sublist.map _)).nodup hnumbers
  have hids := (callSites_perm hperm).map (·.node.id)
  have hfirst := hids.nodup_iff.mpr hsecond
  rw [calls_analyzeContract, calls_analyzeContract]
  by_cases hid : id ∈ (callSites second.visited).map (·.node.id)
  · obtain ⟨site, hsite, rfl⟩ := mem_map.mp hid
    exact (get?_foldl_insert hfirst
      ((callSites_perm hperm).mem_iff.mpr hsite) _).trans
        (get?_foldl_insert hsecond hsite _).symm
  · exact (get?_foldl_insert_of_not_mem (fun hmem => hid (hids.mem_iff.mp hmem)) _).trans
      (get?_foldl_insert_of_not_mem hid _).symm

variable (hnames : (definitions second.body).Nodup)

include hnames

theorem errors_analyzeContract_perm :
    (analyzeContract first).errors.Perm (analyzeContract second).errors := by
  have hnames' : (definitions first.body).Nodup :=
    ((hperm.filterMap _).filter _).nodup_iff.mpr hnames
  rw [(analyzeContract_met first).2, (analyzeContract_met second).2,
    declared_eq_of_perm hperm,
    errors_declareAll_empty_iff.mpr hnames,
    errors_declareAll_empty_iff.mpr hnames']
  exact (mentions_perm hperm).filterMap _

theorem analyzeContract_sameEntries : (analyzeContract first).environment.untyped.SameEntries
      (analyzeContract second).environment.untyped := by
  rw [untyped_analyzeContract, untyped_analyzeContract,
    mark_congr fun _ => mem_uses_iff_of_perm hperm]
  exact (declareAll_sameEntries hperm hnames).untyped.mark _

theorem warnings_analyzeContract_perm :
    ((analyzeContract first).warnings.filter (·.code ≠ .typeMismatch)).Perm
      ((analyzeContract second).warnings.filter (·.code ≠ .typeMismatch)) := by
  rw [filter_warnings_analyzeContract, filter_warnings_analyzeContract, ← Usage.warnings_untyped,
    ← Usage.warnings_untyped (analyzeContract second).environment]
  refine Usage.warnings_perm (analyzeContract_sameEntries hperm hnames) fun function owner => ?_
  rw [mem_referrers_analyzeContract, mem_referrers_analyzeContract,
    mem_uses_iff_of_perm hperm]

theorem analyzeContract_sameNames (hnumbers : (second.postorder.map (·.info.id)).Nodup) :
    (analyzeContract first).SameNames (analyzeContract second) := by
  have hentries := analyzeContract_sameEntries hperm hnames
  have hused (environment : Environment) (name : String) :
      (environment.constants.get? name).map used =
        (environment.untyped.constants.get? name).map used := by
    rw [untyped, get?_mapValues, Option.map_map]
    rfl
  constructor
  · exact errors_analyzeContract_perm hperm hnames
  · exact warnings_analyzeContract_perm hperm hnames
  · intro name
    rw [hused (analyzeContract first).environment, hused (analyzeContract second).environment,
      get?_eq_of_perm hentries.constants]
  · exact fun name => congrArg _ (get?_eq_of_perm hentries.dataVars name)
  · exact fun name => congrArg _ (get?_eq_of_perm hentries.maps name)
  · exact fun name => congrArg _ (get?_eq_of_perm hentries.tokens name)
  · exact get?_resolutions_of_perm hperm hnumbers
  · exact get?_calls_of_perm hperm hnumbers
  · intro function
    rw [mem_keys_references_analyzeContract, mem_keys_references_analyzeContract]
    simp only [mem_uses_iff_of_perm hperm]
  · intro function owner
    rw [mem_referrers_analyzeContract, mem_referrers_analyzeContract,
      mem_uses_iff_of_perm hperm]

end SameForms

/-- The order of definitions does not matter to names. If no two definitions of one table share a
name, then a parsed contract with its forms in another order is analysed with the same errors, the
same warnings but those about types, the same marks of use on every entity, and the same
resolutions, calls and references. -/
theorem analyzeContract_perm_forms {tokens : List Token} {result : ParseResult}
    (hparse : parseTokens tokens = .ok result)
    (hnames : (definitions result.contract.body).Nodup) {body : List Form}
    (hbody : body.Perm result.contract.body) :
    (analyzeContract { result.contract with body := body }).SameNames
      (analyzeContract result.contract) :=
  analyzeContract_sameNames hbody hnames (parseTokens_made hparse).1

def forwardCall : String :=
  "(define-data-var total uint u0) " ++
    "(define-public (check) (ok (if (enabled) (var-set total limit) (var-get total)))) " ++
    "(define-private (enabled) true) (define-constant limit u10)"

/-- The order does matter to types: the condition is a mismatch only as long as the type of the
function is not known. -/
theorem analyzeContract_perm_forms_forwardCall : ∃ result, parse forwardCall = .ok result ∧
      (analyzeContract { result.contract with body := result.contract.body.reverse }).SameNames
        (analyzeContract result.contract) ∧
      (analyzeContract result.contract).warnings.map Diagnostic.code = [.typeMismatch] ∧
      (analyzeContract { result.contract with body := result.contract.body.reverse }).warnings =
        [] := by
  obtain ⟨result, hparse, hnames, hcomputed⟩ : ∃ result, parse forwardCall = .ok result ∧
      (definitions result.contract.body).Nodup ∧
      (analyzeContract result.contract).warnings.map Diagnostic.code = [.typeMismatch] ∧
      (analyzeContract { result.contract with body := result.contract.body.reverse }).warnings =
        [] :=
    exists_parse (append_eq_ofList (append_eq_ofList rfl rfl) rfl) (by decide +kernel)
  exact ⟨result, hparse, analyzeContract_perm_forms hparse hnames (List.reverse_perm _), hcomputed⟩

end ContractAudit
