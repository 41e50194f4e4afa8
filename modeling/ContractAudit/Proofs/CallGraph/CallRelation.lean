import ContractAudit.Proofs.CallGraph.Callers
import ContractAudit.Proofs.Semantic.UsageFlags

/-!
# The graph is the call relation

The nodes of a call graph come from the definitions, its calls from what is recorded of each
definition, the functions that may be called from the environment, and the referrers of a function
from the visits. In a contract that a parse gives they fit together, also where a name is defined
twice or could not be read.
-/

namespace ContractAudit

open CallGraph Parse List Contract

open Facts (CallSite)

variable (semantic : SemanticResult)

/-- That a graph is the call relation between the functions of a contract. -/
structure CallGraph.Mirrors (graph : CallGraph) (contract : Contract) : Prop where
  /-- The functions stand in the order of their first definitions. -/
  keys : graph.keys = distinct (contract.functions.map FunctionDef.name)
  /-- The calls of a function are the declared functions called in its first definition, each where
  it is first called. -/
  calls : ∀ f, contract.functions.find? (·.name = f.name) = some f →
    graph.callsOf f.name = distinct (((Expr.callsList f.body).map (·.info.name)).filter fun name =>
      name ≠ placeholder && contract.defines .function name)
  mem_calls : ∀ f, contract.functions.find? (·.name = f.name) = some f →
    ∀ name, name ∈ graph.callsOf f.name ↔ name ≠ placeholder ∧
      contract.defines .function name = true ∧ ∃ info args, CallWithin f.body info name args
  known : ∀ caller, ∀ callee ∈ graph.callsOf caller, callee ∈ graph.keys
  callers : ∀ caller callee, caller ∈ graph.callersOf callee ↔ callee ∈ graph.callsOf caller
  callersOnce : ∀ callee, (graph.callersOf callee).Nodup

variable {contract : Contract} {caller callee name : String} {f : FunctionDef}

theorem get?_calleesGraph (name : String) : (calleesGraph semantic).get? name =
      (semantic.contract.functions.find? (·.name = name)).map (calleesNode semantic) := by
  rw [calleesGraph_eq_ofFirst, Table.get?_ofFirst, find?_map, Option.map_map]
  rfl

theorem callsOf_callGraph (name : String) : (callGraph semantic).callsOf name =
      ((semantic.contract.functions.find? (·.name = name)).map fun f =>
        (calleesNode semantic f).calls).getD [] := by
  rw [callGraph, callsOf_withCallers, callsOf, get?_calleesGraph,
    Option.map_map]
  rfl

theorem exists_of_mem_callsOf (h : callee ∈ (callGraph (analyzeContract contract)).callsOf caller) :
    ∃ f, f.name = caller ∧ contract.functions.find? (·.name = f.name) = some f ∧
      callee ∈ (callGraph (analyzeContract contract)).callsOf f.name := by
  cases hfind : contract.functions.find? (·.name = caller) with
  | none =>
      rw [callsOf_callGraph, show (analyzeContract contract).contract =
        contract from rfl, hfind] at h
      cases h
  | some f =>
      obtain rfl : f.name = caller := by simpa using find?_some hfind
      exact ⟨f, rfl, hfind, h⟩

section Numbered

variable (hnumbers : (contract.postorder.map (·.info.id)).Nodup)

include hnumbers

theorem callsOf_callGraph_analyzeContract
    (hfirst : contract.functions.find? (·.name = f.name) = some f) :
    (callGraph (analyzeContract contract)).callsOf f.name =
      distinct (((Expr.callsList f.body).map (·.info.name)).filter fun name =>
        name ≠ placeholder && contract.defines .function name) := by
  have hf := mem_functions.mp (mem_of_find?_eq_some hfirst)
  have hdeclared : (analyzeContract contract).environment.functions.contains =
      fun name => name ≠ placeholder && contract.defines .function name := by
    funext name
    rw [Bool.eq_iff_iff, contains_functions_analyzeContract]
    simp
  rw [callsOf_callGraph, show (analyzeContract contract).contract = contract from rfl, hfirst]
  show ((Option.map FunctionFacts.callees ((analyzeContract contract).factsOf? f)).getD []) = _
  rw [factsOf?_analyzeContract hnumbers hf, ← hdeclared, Option.map_some, Option.getD_some,
    functionFacts, callsIn_analyzeContract hnumbers hf, map_map]
  rfl

theorem mem_callsOf_callGraph (hfirst : contract.functions.find? (·.name = f.name) = some f) :
    callee ∈ (callGraph (analyzeContract contract)).callsOf f.name ↔ callee ≠ placeholder ∧
      contract.defines .function callee = true ∧ ∃ info args,
        CallWithin f.body info callee args := by
  rw [callsOf_callGraph_analyzeContract hnumbers hfirst, mem_distinct, mem_filter,
    mem_names_callsList, and_comm]
  simp [and_assoc]

theorem mem_keys_of_mem_callsOf
    (h : callee ∈ (callGraph (analyzeContract contract)).callsOf caller) :
    callee ∈ (callGraph (analyzeContract contract)).keys := by
  obtain ⟨f, rfl, hfirst, hcallee⟩ := exists_of_mem_callsOf h
  obtain ⟨_, hdefines, _⟩ := (mem_callsOf_callGraph hnumbers hfirst).mp hcallee
  obtain ⟨form, hform, hdefined⟩ := any_eq_true.mp hdefines
  rw [keys_callGraph, mem_distinct, mem_map]
  cases form <;> cases of_decide_eq_true hdefined
  exact ⟨_, mem_functions.mpr hform, rfl⟩

theorem callGraph_mirrors : (callGraph (analyzeContract contract)).Mirrors contract where
  keys := keys_callGraph _
  calls _ hfirst := callsOf_callGraph_analyzeContract hnumbers hfirst
  mem_calls _ hfirst _ := mem_callsOf_callGraph hnumbers hfirst
  known _ _ hmem := mem_keys_of_mem_callsOf hnumbers hmem
  callers caller callee := by
    constructor
    · intro hcaller
      exact (mem_callersOf_callGraph _ (mem_keys_of_listed hcaller)).mp hcaller
    · intro hcallee
      exact (mem_callersOf_callGraph _ (mem_keys_of_mem_callsOf hnumbers hcallee)).mpr hcallee
  callersOnce callee := by
    by_cases hknown : callee ∈ (callGraph (analyzeContract contract)).keys
    · rw [callersOf_callGraph _ hknown]
      exact nodup_callersIn
    · rw [callersOf, Table.get?_eq_none_iff.mpr hknown]
      exact .nil

end Numbered

/-! ## Callers and referrers -/

/-- Whoever calls a declared function refers to it. -/
theorem mem_referrers_of_call (hnumbers : (contract.postorder.map (·.info.id)).Nodup)
    (hf : .function f ∈ contract.body) (hname : name ≠ placeholder)
    (hdefines : contract.defines .function name = true) {info : NodeInfo} {args : List Expr}
    (hcall : CallWithin f.body info name args) :
    f.name ∈ (analyzeContract contract).facts.referrers name :=
  (mem_referrers_iff hnumbers (declared_iff.mpr ⟨hdefines, hname⟩)).mpr
    ⟨_, hf, rfl, .inl ⟨info, args, hcall⟩⟩

/-- The call graph of a parsed contract is exactly the call relation. It has one node for each
function name, in the order of first definition; the calls of a node are the declared functions
called anywhere in that definition, each once, and they are nodes; the callers of a node are the
nodes that call it, each once, and all of them are recorded as referring to it. So a private
function that is reported as never called is called by no function but itself. -/
theorem callGraph_is_call_relation {tokens : List Token} {result : ParseResult}
    (hparse : parseTokens tokens = .ok result) :
    (callGraph (analyzeContract result.contract)).Mirrors result.contract ∧
    (∀ caller callee, caller ∈ (callGraph (analyzeContract result.contract)).callersOf callee →
      caller ∈ (analyzeContract result.contract).facts.referrers callee) ∧
    ∀ name location,
      .warning .semantic .unusedFunction s!"Private function '{name}' is never called" location ∈
        (analyzeContract result.contract).warnings →
      (∀ f, .function f ∈ result.contract.body → ∀ info args,
        CallWithin f.body info name args → f.name = name) ∧
      ∀ caller ∈ (callGraph (analyzeContract result.contract)).callersOf name, caller = name := by
  have hnumbers := (parseTokens_made hparse).1
  have hmirrors := callGraph_mirrors hnumbers
  have hrefers : ∀ caller callee,
      caller ∈ (callGraph (analyzeContract result.contract)).callersOf callee →
        caller ∈ (analyzeContract result.contract).facts.referrers callee := by
    intro caller callee hcaller
    obtain ⟨f, rfl, hfirst, hcallee⟩ := exists_of_mem_callsOf ((hmirrors.callers _ _).mp hcaller)
    obtain ⟨hname, hdefines, _, _, hcall⟩ := (hmirrors.mem_calls f hfirst callee).mp hcallee
    exact mem_referrers_of_call hnumbers
      (Contract.mem_functions.mp (List.mem_of_find?_eq_some hfirst)) hname hdefines hcall
  refine ⟨hmirrors, hrefers, fun name location hwarning => ?_⟩
  obtain ⟨entry, hentry, _, _, honly⟩ := mem_warnings_unusedFunction.mp hwarning
  obtain ⟨hname, hdefines⟩ := (contains_functions_analyzeContract _ name).mp
    (Table.contains_iff.mpr (List.mem_map_of_mem hentry))
  exact ⟨fun f hf _ _ hcall => honly _ (mem_referrers_of_call hnumbers hf hname hdefines hcall),
    fun caller hcaller => honly caller (hrefers caller name hcaller)⟩

/-- A function that only itself calls, one that is defined twice and calls another one twice, and
one without a name. -/
def selfCalls : String :=
  "(define-private (spin) (spin)) (define-public (go) (begin (stop) (go) (stop))) " ++
    "(define-public (stop) 1) (define-public (go) (stop)) (define-public () (go))"

theorem callGraph_is_call_relation_selfCalls : ∃ result, parse selfCalls = .ok result ∧
      (callGraph (analyzeContract result.contract)).Mirrors result.contract ∧
      (callGraph (analyzeContract result.contract)).callsOf "go" = ["stop", "go"] ∧
      ∃ f, .function f ∈ result.contract.body ∧ (∃ info args, CallWithin f.body info "spin" args) ∧
        ∀ caller ∈
          (callGraph (analyzeContract result.contract)).callersOf "spin", caller = "spin" := by
  obtain ⟨result, hparse, hcalls, ⟨f, hf, hcall⟩, warning, hwarning, hunused⟩ :
      ∃ result, parse selfCalls = .ok result ∧
        (callGraph (analyzeContract result.contract)).callsOf "go" = ["stop", "go"] ∧
        (∃ f ∈ result.contract.functions, "spin" ∈ (Expr.callsList f.body).map (·.info.name)) ∧
        ∃ warning ∈ (analyzeContract result.contract).warnings,
          .warning .semantic .unusedFunction "Private function 'spin' is never called"
            warning.location = warning :=
    exists_parse (append_eq_ofList rfl rfl) (by decide +kernel)
  obtain ⟨hmirrors, _, halone⟩ := callGraph_is_call_relation hparse
  exact ⟨result, hparse, hmirrors, hcalls, f, Contract.mem_functions.mp hf,
    mem_names_callsList.mp hcall, (halone "spin" warning.location (hunused ▸ hwarning)).2⟩

end ContractAudit
