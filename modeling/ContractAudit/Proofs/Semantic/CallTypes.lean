import ContractAudit.CallGraph.Components
import ContractAudit.Proofs.Semantic.UsageFlags

/-!
# Types of calls

A call of a function of the contract gets the return type that the function has when the call is
visited. The forms of a contract are visited in order, and the return type of a function is set when
its body has been visited. So a call has the return type of its callee if the callee is defined
before the form that the call stands in, and else the type that all functions are declared with.
-/

namespace ContractAudit

open List Contract

variable {entry : FunctionEntry} {args : List Expr} {callee : String} {forms : List Form} {id : Nat}

theorem mem_definitions {definition : Namespace × String} : definition ∈ definitions forms ↔
    (∃ form ∈ forms, form.definition? = some definition) ∧ definition.2 ≠ Parse.placeholder := by
  simp [definitions, mem_filter]

namespace Analyzer

/-! ## Visits of forms -/

theorem get?_functions_setType {form : Form} (h : form.definition? ≠ some (.functions, callee))
    (type : ValueType) (environment : Environment) :
    (setType form type environment).functions.get? callee = environment.functions.get? callee := by
  cases form with
  | function f =>
      have hne : callee ≠ f.name := fun heq => h (by rw [heq]; rfl)
      show (environment.functions.modify f.name _).get? callee = _
      rw [Table.modify, Table.get?_mapValues]
      simp [hne]
  | _ => rfl

theorem visitForm_typed (form : Form) (analysis : Analysis) : ∃ visited type,
    Typed (Expr.postorderList form.children) analysis visited ∧
      (visitForm form analysis).2 = visited.changeEnvironment (setType form type) := by
  cases form with
  | constant info name value => exact ⟨_, _, visitOwn_typed name .empty [value] analysis, rfl⟩
  | dataVar info name type initial =>
      exact ⟨_, .uint, visitOwn_typed name .empty [initial] analysis, rfl⟩
  | fungible info name supply =>
      cases supply with
      | none => exact ⟨analysis, .uint, .quiet rfl rfl rfl, rfl⟩
      | some supply => exact ⟨_, .uint, visitOwn_typed name .empty [supply] analysis, rfl⟩
  | function f => exact ⟨_, _, visitOwn_typed f.name (functionScope f) f.body analysis, rfl⟩
  | _ => exact ⟨analysis, .uint, .quiet rfl rfl rfl, rfl⟩

theorem get?_types_visitForms (analysis : Analysis)
    (h : id ∉ (forms.flatMap fun form => Expr.postorderList form.children).map (·.info.id)) :
    (visitForms forms analysis).2.facts.types.get? id = analysis.facts.types.get? id := by
  induction forms generalizing analysis with
  | nil => rfl
  | cons form rest ih =>
      rw [flatMap_cons, map_append, mem_append, not_or] at h
      obtain ⟨visited, type, htyped, hvisit⟩ := visitForm_typed form analysis
      show (visitForms rest (visitForm form analysis).2).2.facts.types.get? id = _
      rw [ih _ h.2, hvisit]
      exact htyped.others id h.1

theorem get?_functions_visitForms (analysis : Analysis)
    (h : ∀ form ∈ forms, form.definition? ≠ some (.functions, callee)) :
    (visitForms forms analysis).2.environment.functions.get? callee =
      analysis.environment.functions.get? callee := by
  induction forms generalizing analysis with
  | nil => rfl
  | cons form rest ih =>
      obtain ⟨hform, hrest⟩ := forall_mem_cons.mp h
      obtain ⟨visited, type, htyped, hvisit⟩ := visitForm_typed form analysis
      show (visitForms rest (visitForm form analysis).2).2.environment.functions.get? callee = _
      rw [ih _ hrest, hvisit, ← htyped.functions]
      exact get?_functions_setType hform type visited.environment

theorem visitForms_append (front rest : List Form) (analysis : Analysis) :
    (visitForms (front ++ rest) analysis).2 =
      (visitForms rest (visitForms front analysis).2).2 := by
  induction front generalizing analysis with
  | nil => rfl
  | cons form front ih => exact ih (visitForm form analysis).2

end Analyzer

/-! ## Calls -/

open Analyzer

section Contracts

variable {contract : Contract} {front rest : List Form} {form : Form}
  (hbody : contract.body = front ++ form :: rest)

include hbody

theorem get?_types_of_call (hnumbers : (contract.postorder.map (·.info.id)).Nodup)
    {info : NodeInfo} (hcall : CallWithin form.children info callee args)
    (hplain : Builtin.isFunction callee = false) :
    (analyzeContract contract).facts.types.get? info.id =
      some ((visitForms front contract.declaredAnalysis).2.environment.returnType callee) := by
  have hdistinct := (contract.visited_sublist.map (·.info.id)).nodup hnumbers
  rw [visited, hbody, flatMap_append, flatMap_cons, map_append,
    map_append, nodup_append, nodup_append] at hdistinct
  obtain ⟨-, ⟨hown, -, hapart⟩, -⟩ := hdistinct
  have hsite : ⟨info, args, .ofCall callee args⟩ ∈ callSites (Expr.postorderList form.children) :=
    (Expr.callsList_perm _).mem_iff.mp (mem_callsList_iff.mpr hcall)
  obtain ⟨node, hnode, hnodeSite⟩ := mem_filterMap.mp hsite
  obtain ⟨visited, type, htyped, hvisit⟩ :=
    visitForm_typed form (visitForms front contract.declaredAnalysis).2
  show contract.visitedAnalysis.facts.types.get? info.id = _
  rw [visitedAnalysis, hbody, visitForms_append]
  show (visitForms rest (visitForm form _).2).2.facts.types.get? info.id = _
  rw [get?_types_visitForms, hvisit]
  · exact htyped.calls hown _ hsite hplain
  · intro hmem
    exact hapart _ (mem_map_of_mem hnode) _ hmem (Node.id_of_callSite? hnodeSite).symm

theorem returnType_visitForms (hnames : (definitions contract.body).Nodup)
    (hentry : (analyzeContract contract).environment.functions.get? callee = some entry) :
    (visitForms front contract.declaredAnalysis).2.environment.returnType callee =
      if (.functions, callee) ∈ definitions front then entry.returnType else .uint := by
  have hname : callee ≠ Parse.placeholder := by
    refine ((contains_functions_analyzeContract contract callee).mp ?_).1
    rw [← Table.isSome_get?, hentry]
    rfl
  have hnone {forms : List Form} (h : (.functions, callee) ∉ definitions forms) :
      ∀ form ∈ forms, form.definition? ≠ some (.functions, callee) :=
    fun form hform hdefinition => h (mem_definitions.mpr ⟨⟨form, hform, hdefinition⟩, hname⟩)
  by_cases hfront : (.functions, callee) ∈ definitions front
  · have hrest : (.functions, callee) ∉ definitions (form :: rest) := by
      rw [hbody, definitions, filterMap_append, filter_append, nodup_append] at hnames
      exact fun hmem => hnames.2.2 _ hfront _ hmem rfl
    rw [environment_analyzeContract, visitedAnalysis, hbody, visitForms_append,
      get?_functions_visitForms _ (hnone hrest)] at hentry
    rw [if_pos hfront, Environment.returnType, hentry]
    rfl
  · rw [if_neg hfront, Environment.returnType, get?_functions_visitForms _ (hnone hfront)]
    cases hdeclared : contract.declaredAnalysis.environment.functions.get? callee with
    | none => rfl
    | some made =>
        obtain ⟨_, form, _, hmade⟩ := DeclaredTable.made_of_get? .functions hdeclared
        cases form <;> cases hmade
        rfl

end Contracts

/-- A call of a function of the contract has the return type that is inferred for the function if
the function is defined before the form that the call stands in, and else the type of numbers. -/
theorem call_typed_by_earlier_definition {tokens : List Token} {result : ParseResult}
    (hparse : parseTokens tokens = .ok result)
    (herrors : (analyzeContract result.contract).errors = []) {front rest : List Form} {form : Form}
    (hbody : result.contract.body = front ++ form :: rest) {info : NodeInfo}
    (hcall : CallWithin form.children info callee args)
    (hplain : Builtin.isFunction callee = false)
    (hentry : (analyzeContract result.contract).environment.functions.get? callee = some entry) :
    (analyzeContract result.contract).facts.types.get? info.id =
      some (if (.functions, callee) ∈ definitions front then entry.returnType else .uint) := by
  rw [get?_types_of_call hbody (parseTokens_made hparse).1 hcall hplain,
    returnType_visitForms hbody (nodup_definitions herrors) hentry]

def callsBothWays : String :=
  "(define-private (ready) true) (define-public (run) (if (ready) (late) u1)) " ++
    "(define-private (late) (err true))"

theorem call_typed_by_earlier_definition_callsBothWays :
    ∃ result form, parse callsBothWays = .ok result ∧
      (analyzeContract result.contract).errors = [] ∧ form ∈ result.contract.body ∧
      (∃ info args, CallWithin form.children info "ready" args ∧
        ((analyzeContract result.contract).facts.types.get? info.id).map ValueType.kind =
          some .bool) ∧
      (∃ info args, CallWithin form.children info "late" args ∧
        (analyzeContract result.contract).facts.types.get? info.id = some .uint) ∧
      ((analyzeContract result.contract).environment.functions.get? "late").map
        (·.returnType.kind) = some .response := by
  obtain ⟨result, hparse, herrors, hforms, ⟨entry, hentry, hkind⟩, other, hother, hresponse⟩ :
      ∃ result, parse callsBothWays = .ok result ∧ (analyzeContract result.contract).errors = [] ∧
        result.contract.body.map (fun form => (form.definition?,
          (Expr.callsList form.children).map (·.info.name))) =
            [(some (.functions, "ready"), []), (some (.functions, "run"), ["ready", "late"]),
              (some (.functions, "late"), ["err"])] ∧
        (∃ entry ∈ (analyzeContract result.contract).environment.functions.get? "ready",
          entry.returnType.kind = .bool) ∧
        ∃ entry ∈ (analyzeContract result.contract).environment.functions.get? "late",
          entry.returnType.kind = .response :=
    exists_parse (append_eq_ofList rfl rfl) (by decide +kernel)
  obtain ⟨first, rest, hbody, hfirst, hrest⟩ := List.map_eq_cons_iff.mp hforms
  obtain ⟨form, rest, rfl, hform, _⟩ := List.map_eq_cons_iff.mp hrest
  have hbody : result.contract.body = [first] ++ form :: rest := hbody
  simp only [Prod.mk.injEq] at hfirst hform
  obtain ⟨info, args, hcall⟩ := mem_names_callsList.mp (hform.2 ▸ List.mem_cons_self)
  obtain ⟨node, values, hforward⟩ :=
    mem_names_callsList.mp (hform.2 ▸ List.mem_cons_of_mem _ List.mem_cons_self)
  have htype := call_typed_by_earlier_definition hparse herrors hbody hcall (by decide) hentry
  have hdefault := call_typed_by_earlier_definition hparse herrors hbody hforward (by decide) hother
  rw [if_pos (mem_definitions_singleton.mpr ⟨hfirst.1, by decide⟩)] at htype
  rw [if_neg (by simp [mem_definitions_singleton, hfirst.1])] at hdefault
  exact ⟨result, form, hparse, herrors, by simp [hbody],
    ⟨info, args, hcall, by simp [htype, hkind]⟩,
    ⟨node, values, hforward, hdefault⟩, Option.map_eq_some_iff.mpr ⟨other, hother, hresponse⟩⟩

def calledEarly : String :=
  "(define-public (a) (if (b) u1 u2))\n(define-private (b) true)"

/-- A call has another type than its callee where the callee is defined later, though no function is
recursive, and a warning follows that the other order does not give. -/
theorem call_mistyped_before_definition :
    ∃ result form info args, parse calledEarly = .ok result ∧ result.errors = [] ∧
      (analyzeContract result.contract).errors = [] ∧
      (callGraph (analyzeContract result.contract)).recursiveGroups = [] ∧
      form ∈ result.contract.body ∧ CallWithin form.children info "b" args ∧
      ((analyzeContract result.contract).facts.types.get? info.id).map ValueType.kind = some .uint ∧
      ((analyzeContract result.contract).environment.functions.get? "b").map (·.returnType.kind) =
        some .bool ∧
      (analyzeContract result.contract).warnings.map Diagnostic.code = [.typeMismatch] ∧
      (analyzeContract { result.contract with body := result.contract.body.reverse }).warnings =
        [] := by
  obtain ⟨result, hparse, hclean, herrors, hgroups, ⟨form, hform, site, hsite, hname, htype⟩,
    hcomputed⟩ : ∃ result, parse calledEarly = .ok result ∧ result.errors = [] ∧
      (analyzeContract result.contract).errors = [] ∧
      (callGraph (analyzeContract result.contract)).recursiveGroups = [] ∧
      (∃ form ∈ result.contract.body, ∃ site ∈ Expr.callsList form.children, site.info.name = "b" ∧
        ((analyzeContract result.contract).facts.types.get? site.node.id).map ValueType.kind =
          some .uint) ∧
      ((analyzeContract result.contract).environment.functions.get? "b").map (·.returnType.kind) =
        some .bool ∧
      (analyzeContract result.contract).warnings.map Diagnostic.code = [.typeMismatch] ∧
      (analyzeContract { result.contract with body := result.contract.body.reverse }).warnings =
        [] :=
    exists_parse rfl (by decide +kernel)
  obtain ⟨expr, hexpr, info, _, args, hwithin, rfl⟩ := Expr.mem_callsList.mp hsite
  subst hname
  exact ⟨result, form, info, args, hparse, hclean, herrors, hgroups, hform, ⟨expr, hexpr, hwithin⟩,
    htype, hcomputed⟩

end ContractAudit
