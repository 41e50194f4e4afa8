import ContractAudit.Proofs.Semantic.Resolution

/-!
# Calls are recorded

The analysis records each call when its arguments have been visited, so it meets the calls of an
expression in post-order, while the facts are read in pre-order. No two nodes of a parsed contract
have the same number, so what is recorded about a call is found under its node.
-/

namespace ContractAudit

open List ContractAudit.Expr CallInfo Contract Builtin

open Facts (CallSite)

variable {facts : Facts} {f : FunctionDef} {body : List Expr}

/-! ## Calls of a parsed contract -/

def Node.function? : Node → Option FunctionDef
  | .form top => top.function?
  | _ => none

theorem Node.id_of_function? {node : Node} (h : node.function? = some f) :
    f.info.id = node.info.id := by
  cases node with
  | form top =>
      cases top <;> cases h
      rfl
  | _ => cases h

theorem Form.children_sublist (form : Form) : form.children.Sublist form.parts := by
  cases form <;> first | exact .refl _ | exact nil_sublist _

namespace Contract

variable {contract : Contract}

def visited (contract : Contract) : List Node :=
  contract.body.flatMap fun form => postorderList form.children

theorem visited_sublist : contract.visited.Sublist contract.postorder := by
  refine .trans ?_ (sublist_append_left _ _)
  refine List.Sublist.flatMap_right _ fun form _ => ?_
  rw [Form.postorder, postorderList_eq, postorderList_eq]
  exact (form.children_sublist.flatMap _).trans (sublist_append_left _ _)

theorem mem_functions : f ∈ contract.functions ↔ .function f ∈ contract.body := by
  rw [functions, mem_filterMap]
  constructor
  · rintro ⟨form, hform, hfunction⟩
    cases form <;> cases hfunction
    exact hform
  · intro h
    exact ⟨_, h, rfl⟩

theorem nodup_id_functions (h : (contract.postorder.map (·.info.id)).Nodup) :
    (contract.functions.map (·.info.id)).Nodup := by
  have hfunctions : contract.functions = (contract.body.map .form).filterMap Node.function? := by
    rw [filterMap_map]
    rfl
  have hforms : (contract.body.map .form).Sublist contract.postorder :=
    (sublist_append_left _ _).trans (Node.contract contract).parts_sublist
  rw [hfunctions]
  exact ((Node.map_id_filterMap_sublist (fun _ _ => Node.id_of_function?) _).trans
    (hforms.map _)).nodup h

end Contract

theorem calls_analyzeContract (contract : Contract) : (analyzeContract contract).facts.calls =
      (callSites contract.visited).foldl CallSite.enter .empty :=
  (Analyzer.visitForms_noted contract.body _).calls

theorem get?_calls_analyzeContract {contract : Contract}
    (hnumbers : (contract.postorder.map (·.info.id)).Nodup) {site : CallSite}
    (hsite : site ∈ callSites contract.visited) :
    (analyzeContract contract).facts.calls.get? site.node.id = some site.info := by
  have hdistinct : ((callSites contract.visited).map (·.node.id)).Nodup :=
    ((Node.map_id_filterMap_sublist (fun _ _ => Node.id_of_callSite?) _).trans
      (visited_sublist.map _)).nodup hnumbers
  rw [calls_analyzeContract]
  exact Table.get?_foldl_insert hdistinct hsite _

theorem callsIn_eq (h : ∀ site ∈ callsList body, facts.calls.get? site.node.id = some site.info) :
    facts.callsIn body = callsList body := by
  rw [← callSites_walkBody] at h ⊢
  refine filterMap_congr fun node hnode => ?_
  cases hsite : node.callSite? with
  | none =>
      have hcall : node.call? = none := by
        unfold Node.callSite? at hsite
        unfold Node.call?
        split at hsite <;> simp_all
      simp [hcall]
  | some site =>
      have hknown := h site (mem_filterMap.mpr ⟨node, hnode, hsite⟩)
      obtain ⟨info, callee, args, rfl, rfl⟩ := Node.callSite?_eq_some.mp hsite
      simp [Node.call?, hknown]

section

variable {contract : Contract} (hnumbers : (contract.postorder.map (·.info.id)).Nodup)
  (hf : .function f ∈ contract.body)

include hnumbers hf

theorem nodup_id_callsList : ((callsList f.body).map (·.node.id)).Nodup := by
  have hbody : (postorderList f.body).Sublist contract.visited := by
    have hform := (singleton_sublist.mpr hf).flatMap fun form : Form =>
      postorderList form.children
    rwa [flatMap_singleton] at hform
  refine ((callsList_perm f.body).map _).nodup_iff.mpr ?_
  exact ((Node.map_id_filterMap_sublist (fun _ _ => Node.id_of_callSite?) _).trans
    ((hbody.trans visited_sublist).map _)).nodup hnumbers

theorem callsIn_analyzeContract :
    (analyzeContract contract).facts.callsIn f.body = callsList f.body := by
  refine callsIn_eq fun site hsite => get?_calls_analyzeContract hnumbers ?_
  obtain ⟨node, hnode, hnodeSite⟩ :=
    mem_filterMap.mp ((callsList_perm f.body).mem_iff.mp hsite)
  exact mem_filterMap.mpr ⟨node, mem_flatMap.mpr ⟨_, hf, hnode⟩, hnodeSite⟩

/-- What is known of a function is found under its own node. -/
theorem factsOf?_analyzeContract : (analyzeContract contract).factsOf? f =
      some (functionFacts (analyzeContract contract).environment
        (analyzeContract contract).facts f) := by
  have hmem : (f.info.id, functionFacts (analyzeContract contract).environment
      (analyzeContract contract).facts f) ∈
        contract.functions.map fun function => (function.info.id,
          functionFacts (analyzeContract contract).environment
            (analyzeContract contract).facts function) :=
    mem_map_of_mem (mem_filterMap.mpr ⟨_, hf, rfl⟩)
  refine Table.get?_ofList ?_ hmem
  rw [map_map]
  exact nodup_id_functions hnumbers

end

/-! ## Declared functions -/

theorem contains_functions_analyzeContract (contract : Contract) (name : String) :
    (analyzeContract contract).environment.functions.contains name = true ↔
      name ≠ Parse.placeholder ∧ contract.defines .function name = true := by
  have hdeclares : (analyzeContract contract).environment.declares = contract.declared :=
    (Analyzer.visitForms_noted contract.body _).met.declares
  show (analyzeContract contract).environment.declares .function name = true ↔ _
  rw [hdeclares, declared_iff, and_comm]

/-! ## What is known of a function -/

def CallWithin (body : List Expr) (info : NodeInfo) (callee : String) (args : List Expr) : Prop :=
  ∃ expr ∈ body, (Node.expr expr).Within (.expr (.call info callee args))

theorem mem_callsList_iff {info : NodeInfo} {callee : String} {args : List Expr} :
    ⟨info, args, .ofCall callee args⟩ ∈ callsList body ↔ CallWithin body info callee args := by
  rw [mem_callsList]
  constructor
  · rintro ⟨expr, hexpr, info', callee', args', hwithin, hsite⟩
    obtain ⟨rfl, rfl, hinfo⟩ := CallSite.mk.inj hsite
    obtain rfl : callee = callee' := congrArg name hinfo
    exact ⟨expr, hexpr, hwithin⟩
  · rintro ⟨expr, hexpr, hwithin⟩
    exact ⟨expr, hexpr, info, callee, args, hwithin, rfl⟩

theorem any_callsList (p : CallInfo → Bool) : ((callsList body).map CallSite.info).any p = true ↔
      ∃ info callee args, CallWithin body info callee args ∧ p (.ofCall callee args) = true := by
  rw [any_map, any_eq_true]
  constructor
  · rintro ⟨site, hsite, hp⟩
    obtain ⟨expr, hexpr, info, callee, args, hwithin, rfl⟩ := mem_callsList.mp hsite
    exact ⟨info, callee, args, ⟨expr, hexpr, hwithin⟩, hp⟩
  · rintro ⟨info, callee, args, hcall, hp⟩
    exact ⟨_, mem_callsList_iff.mpr hcall, hp⟩

/-- What is known of a function sums up the calls that stand in its body, at any depth. -/
structure FunctionFacts.SumsUp (known : FunctionFacts) (contract : Contract) (body : List Expr) :
    Prop where
  callsExternal : known.callsExternal = true ↔
    ∃ info callee args, CallWithin body info callee args ∧ leavesContract callee = true
  modifiesState : known.modifiesState = true ↔
    ∃ info callee args, CallWithin body info callee args ∧ callee ∈ stateWrites
  canFail : known.canFail = true ↔
    ∃ info callee args, CallWithin body info callee args ∧ callee ∈ failable
  callees : ∀ name, name ∈ known.callees ↔
    name ≠ Parse.placeholder ∧ contract.defines .function name = true ∧
      ∃ info args, CallWithin body info name args
  calleesOnce : known.callees.Nodup
  calleesOrder : known.callees.Pairwise fun first second =>
    ((callsList body).map (·.info.name)).idxOf first <
      ((callsList body).map (·.info.name)).idxOf second

theorem mem_names_callsList {name : String} : name ∈ (callsList body).map (·.info.name) ↔
      ∃ info args, CallWithin body info name args := by
  rw [mem_map]
  constructor
  · rintro ⟨site, hsite, rfl⟩
    obtain ⟨expr, hexpr, info, callee, args, hwithin, rfl⟩ := mem_callsList.mp hsite
    exact ⟨info, args, expr, hexpr, hwithin⟩
  · rintro ⟨info, args, hcall⟩
    exact ⟨_, mem_callsList_iff.mpr hcall, rfl⟩

theorem functionFacts_sumsUp {contract : Contract}
    (hcalls : facts.callsIn f.body = callsList f.body) :
    (functionFacts (analyzeContract contract).environment facts f).SumsUp contract f.body := by
  have hcallees : (functionFacts (analyzeContract contract).environment facts f).callees =
      (distinct ((callsList f.body).map (·.info.name))).filter
        (analyzeContract contract).environment.functions.contains := by
    rw [← distinct_filter, functionFacts, hcalls, map_map]
    rfl
  constructor
  · rw [functionFacts, hcalls]
    exact any_callsList isExternal
  · rw [functionFacts, hcalls]
    simpa [ofCall] using any_callsList fun call => stateWrites.contains call.name
  · rw [functionFacts, hcalls]
    simpa [ofCall] using any_callsList canFail
  · intro name
    rw [hcallees, mem_filter, mem_distinct, mem_names_callsList,
      contains_functions_analyzeContract, and_comm, and_assoc]
  · rw [hcallees]
    exact (nodup_distinct _).filter _
  · rw [hcallees]
    exact (pairwise_distinct _).filter _

/-- In a contract that a parse gives, the facts about a function list exactly the calls that
stand anywhere in its body, in pre-order, each once and with what its own callee and arguments
tell. So a function counts as calling another contract, as writing state or as able to fail
exactly if some call in it does, and its callees are the functions of the contract that are
called in it, each where it is first called. -/
theorem analyzeContract_finds_calls {tokens : List Token} {result : ParseResult}
    (hparse : parseTokens tokens = .ok result) {f : FunctionDef}
    (hf : .function f ∈ result.contract.body) :
    (analyzeContract result.contract).facts.callsIn f.body = Expr.callsList f.body ∧
      ((Expr.callsList f.body).map (·.node.id)).Nodup ∧
      (∀ info callee args, ⟨info, args, .ofCall callee args⟩ ∈ Expr.callsList f.body ↔
        CallWithin f.body info callee args) ∧
      ∃ known, (analyzeContract result.contract).factsOf? f = some known ∧
        known.SumsUp result.contract f.body := by
  have hnumbers := (parseTokens_made hparse).1
  have hcalls := callsIn_analyzeContract hnumbers hf
  exact ⟨hcalls, nodup_id_callsList hnumbers hf, fun _ _ _ => mem_callsList_iff, _,
    factsOf?_analyzeContract hnumbers hf, functionFacts_sumsUp hcalls⟩

def nestedCalls : String :=
  "(define-public (f) (let ((y (g 1))) (match (h y) v (ok (f v)) " ++
    "\x7bk: (contract-call? .c d (g y))\x7d)))"

theorem analyzeContract_finds_nestedCalls :
    ∃ result f, parse nestedCalls = .ok result ∧ .function f ∈ result.contract.body ∧
      ((analyzeContract result.contract).facts.callsIn f.body).map (·.info.name) =
        ["g", "h", "ok", "f", "contract-call?", "g"] := by
  obtain ⟨result, hparse, f, hf, hnames⟩ : ∃ result, parse nestedCalls = .ok result ∧
      ∃ f ∈ result.contract.functions,
        (Expr.callsList f.body).map (·.info.name) = ["g", "h", "ok", "f", "contract-call?", "g"] :=
    exists_parse (append_eq_ofList rfl rfl) (by decide +kernel)
  have hform := Contract.mem_functions.mp hf
  refine ⟨result, f, hparse, hform, ?_⟩
  rwa [(analyzeContract_finds_calls hparse hform).1]

end ContractAudit
