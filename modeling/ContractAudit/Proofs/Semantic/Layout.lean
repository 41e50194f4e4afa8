import ContractAudit.Proofs.Semantic.Declarations
import ContractAudit.Proofs.Semantic.Unplace
import ContractAudit.Proofs.Semantic.Usage

/-!
# Layouts of a contract

The analysis compares places for one purpose: a definition sets the type of its name only if it is
the one that was declared, and it tells that by its span. So the analysis of a contract without
places is another one if a name is defined twice. What matters is which definitions own their names.
Where the forms of a contract stand at different places these are the first ones, whatever the
places are (`owns_eq_isFirst`), and then two layouts of one contract are analysed alike but for
places (`analyzeContract_unplace`).
-/

namespace ContractAudit

open List Environment Facts.CallSite

variable (contract : Contract) (forms : List Form) (form : Form)

/-! ## Declarations without places -/

namespace Environment

variable {analysis analysis' : Analysis} {environment environment' : Environment} {facts : Facts}
  {forms' front rest : List Form} {α : Type} (table : Table String α)

theorem declaredType_unplace (value : Expr) : declaredType value.unplace = declaredType value := by
  cases value with
  | conditional info condition yes no => cases no <;> rfl
  | _ => rfl

theorem declareIn_mapValues {β : Type} (name : String) (entry : α) (change : α → β) :
    declareIn (table.mapValues fun _ => change) name (change entry) =
      (declareIn table name entry).mapValues fun _ => change := by
  unfold declareIn isNew
  rw [Table.contains_mapValues]
  split
  · exact (Table.mapValues_insert ..).symm
  · rfl

theorem duplicate?_mapValues (label name : String) (location : Location) (change : α → α) :
    duplicate? (table.mapValues fun _ => change) label name .nowhere =
      (duplicate? table label name location).map Diagnostic.unplace := by
  unfold duplicate?
  rw [Table.contains_mapValues]
  split <;> rfl

/-- A form declares the same without places. -/
theorem declare_unplace (environment : Environment) (form : Form) :
    environment.unplace.declare form.unplace = ((environment.declare form).1.unplace,
        (environment.declare form).2.map Diagnostic.unplace) := by
  have hdeclared {α : Type} (table : Table String α) (name : String) (entry : α)
      (change : α → α) := (declareIn_mapValues table name entry change).symm
  have hreported {α : Type} (table : Table String α) (label name : String) (location : Location)
      (change : α → α) := (duplicate?_mapValues table label name location change).symm
  cases form with
  | function f =>
      have hparams : f.unplace.params.map (fun param => (param.name, param.type.toValueType)) =
          f.params.map fun param => (param.name, param.type.toValueType) := by
        simp [FunctionDef.unplace, Parameter.erase, TypeSpec.toValueType_erase]
      dsimp only [declare, Form.unplace, unplace]
      rw [hparams, hdeclared, hreported _ _ _ _ FunctionEntry.unplace]
      rfl
  | constant info name value =>
      dsimp only [declare, Form.unplace, unplace]
      rw [declaredType_unplace, hdeclared, hreported _ _ _ _ ConstantEntry.unplace]
      rfl
  | dataVar info name type initial =>
      dsimp only [declare, Form.unplace, unplace]
      rw [type.toValueType_erase, hdeclared, hreported _ _ _ _ VariableEntry.unplace]
      rfl
  | map info name keyType valueType =>
      dsimp only [declare, Form.unplace, unplace]
      rw [keyType.toValueType_erase, valueType.toValueType_erase, hdeclared,
        hreported _ _ _ _ MapEntry.unplace]
      rfl
  | trait info name functions =>
      have hnames : (functions.map TraitFunction.erase).map TraitFunction.name =
          functions.map TraitFunction.name := by
        simp [TraitFunction.erase]
      dsimp only [declare, Form.unplace, unplace]
      rw [hnames, hdeclared, hreported _ _ _ _ TraitEntry.unplace]
      rfl
  | useTrait info name reference =>
      dsimp only [declare, Form.unplace, unplace]
      rw [hdeclared, hreported _ _ _ _ TraitEntry.unplace]
      rfl
  | fungible info name | nonFungible info name =>
      dsimp only [declare, Form.unplace, unplace]
      rw [hdeclared, hreported _ _ _ _ TokenEntry.unplace]
      rfl
  | implTrait info reference => rfl

theorem declareAll_unplace (environment : Environment) (forms : List Form) :
    environment.unplace.declareAll (forms.map Form.unplace) =
      ((environment.declareAll forms).1.unplace,
        (environment.declareAll forms).2.map Diagnostic.unplace) := by
  induction forms generalizing environment with
  | nil => rfl
  | cons form rest ih =>
      rw [map_cons, declareAll, declareAll, declare_unplace]
      dsimp only
      rw [ih, map_append]
      cases (environment.declare form).2 <;> rfl

end Environment

/-! ## Definitions that own their names -/

/-- Whether a form is the declared definition of its name, of those whose visit sets a type. -/
def Form.owns (environment : Environment) : Form → Bool
  | .constant info name _ => (environment.constants.get? name).any (·.span = info.span)
  | .function f => (environment.functions.get? f.name).any (·.span = f.info.span)
  | _ => false

/-- Whether a definition is the first of its name after some others, of those whose visit sets a
type. -/
def isFirst (seen : List (Namespace × String)) : Option (Namespace × String) → Bool
  | some (space, name) =>
      (space = .constants ∨ space = .functions) ∧ name ≠ Parse.placeholder ∧ (space, name) ∉ seen
  | none => false

namespace DeclaredTable

variable {α : Type} (declared : DeclaredTable α) {name : String}

theorem exists_entry_iff {forms : List Form} : (∃ entry ∈ declared.entries forms, entry.1 = name) ↔
      (declared.space, name) ∈ definitions forms := by
  have hmem : (declared.space, name) ∈ definitions forms ↔
      (declared.space, name) ∈ (declared.entries forms).map
        fun entry => (declared.space, entry.1) := by
    rw [declared.map_entries, mem_filter]
    simp
  rw [hmem, mem_map]
  simp

theorem any_get?_declareAll {span : α → Span}
    (hspan : ∀ form entry, declared.made? form = some entry → span entry.2 = form.info.span)
    {form : Form} {entry : α} (hplaces : ((front ++ form :: rest).map (·.info.span)).Nodup)
    (hmade : declared.made? form = some (name, entry)) :
    ((declared.table (empty.declareAll (front ++ form :: rest)).1).get? name).any
        (fun entry => span entry = form.info.span) =
      decide (name ≠ Parse.placeholder ∧ (declared.space, name) ∉ definitions front) := by
  have hentries : declared.entries (front ++ form :: rest) =
      declared.entries front ++ (declared.entries [form] ++ declared.entries rest) := by
    rw [← declared.entries_cons form rest]
    simp only [entries, filterMap_append, filter_append]
  rw [declared.table_declareAll_empty, Table.get?_ofFirst, Option.any_map]
  by_cases hname : name = Parse.placeholder
  · -- No entry has the name of what could not be read.
    have hnone : (declared.entries (front ++ form :: rest)).find? (fun item => item.1 = name) =
        none := by
      rw [find?_eq_none]
      intro item hitem
      have hitem := (mem_filter.mp hitem).2
      simpa [hname] using hitem
    rw [hnone]
    simp [hname]
  · rw [hentries, find?_append]
    cases hfront : (declared.entries front).find? (fun item => item.1 = name) with
    | some item =>
        have hitem : item ∈ declared.entries front := mem_of_find?_eq_some hfront
        have hkey : item.1 = name := by simpa using find?_some hfront
        have hseen := declared.exists_entry_iff.mp ⟨item, hitem, hkey⟩
        -- The entry comes from a form before this one, which stands elsewhere.
        obtain ⟨other, hother, hmade'⟩ := mem_filterMap.mp (mem_filter.mp hitem).1
        have hapart : span item.2 ≠ form.info.span := by
          rw [hspan other item hmade']
          rw [map_append, map_cons] at hplaces
          exact (nodup_append.mp hplaces).2.2 _ (mem_map_of_mem hother) _ mem_cons_self
        simp [hseen, hapart]
    | none =>
        have hnew : (declared.space, name) ∉ definitions front := by
          rw [← declared.exists_entry_iff]
          intro hseen
          obtain ⟨item, hitem, hkey⟩ := hseen
          exact find?_eq_none.mp hfront item hitem (by simpa using hkey)
        have hown : declared.entries [form] = [(name, entry)] := by simp [entries, hmade, hname]
        simp [hown, hname, hnew, hspan form _ hmade]

end DeclaredTable

theorem Form.definition?_unplace : form.unplace.definition? = form.definition? := by
  cases form <;> rfl

theorem definitions_unplace : definitions (forms.map Form.unplace) = definitions forms := by
  simp [definitions, filterMap_map, Form.definition?_unplace]

/-- Where forms stand at different places, those that own their names are the first ones. -/
theorem Form.owns_eq_isFirst {form : Form}
    (hplaces : ((front ++ form :: rest).map (·.info.span)).Nodup) :
    form.owns (empty.declareAll (front ++ form :: rest)).1 =
      isFirst (definitions front) form.definition? := by
  have hconstant := fun form entry (hmade : DeclaredTable.constants.made? form = some entry) =>
    (by cases form <;> cases hmade; rfl : entry.2.span = form.info.span)
  have hfunction := fun form entry (hmade : DeclaredTable.functions.made? form = some entry) =>
    (by cases form <;> cases hmade; rfl : entry.2.span = form.info.span)
  cases form with
  | constant info name value =>
      refine Eq.trans (DeclaredTable.constants.any_get?_declareAll hconstant hplaces rfl) ?_
      exact decide_eq_decide.mpr (by simp [DeclaredTable.constants])
  | function f =>
      refine Eq.trans (DeclaredTable.functions.any_get?_declareAll hfunction hplaces rfl) ?_
      exact decide_eq_decide.mpr (by simp [DeclaredTable.functions])
  | _ => rfl

/-- Two forms in two environments are the same but for places, and both own their names or
neither does. -/
structure Form.Alike (environment environment' : Environment) (form form' : Form) : Prop where
  unplace : form.unplace = form'.unplace
  owns : form.owns environment = form'.owns environment'

theorem forall₂_alike {forms front' rest' : List Form}
    (hforms : forms = front ++ rest) (hforms' : forms' = front' ++ rest')
    (hplaces : (forms.map (·.info.span)).Nodup) (hplaces' : (forms'.map (·.info.span)).Nodup)
    (hfront : front.map Form.unplace = front'.map Form.unplace)
    (hrest : rest.map Form.unplace = rest'.map Form.unplace) :
    List.Forall₂ (Form.Alike (empty.declareAll forms).1
      (empty.declareAll forms').1) rest rest' := by
  induction rest generalizing front front' rest' with
  | nil =>
      rw [map_nil, eq_comm, map_eq_nil_iff] at hrest
      rw [hrest]
      exact .nil
  | cons form rest ih =>
      cases rest' with
      | nil => cases hrest
      | cons form' rest' =>
          obtain ⟨hform, hothers⟩ := List.cons.inj hrest
          have hdefinition : form.definition? = form'.definition? := by
            rw [← form.definition?_unplace, hform, form'.definition?_unplace]
          have hseen : definitions front = definitions front' := by
            rw [← definitions_unplace front, hfront, definitions_unplace]
          have howns : form.owns (empty.declareAll forms).1 =
              form'.owns (empty.declareAll forms').1 := by
            subst hforms hforms'
            rw [Form.owns_eq_isFirst hplaces, Form.owns_eq_isFirst hplaces', hseen, hdefinition]
          have hlonger : forms = front ++ [form] ++ rest := by
            rw [hforms, append_assoc, singleton_append]
          have hlonger' : forms' = front' ++ [form'] ++ rest' := by
            rw [hforms', append_assoc, singleton_append]
          refine .cons ⟨hform, howns⟩ (ih hlonger hlonger' ?_ hothers)
          rw [map_append, map_append, hfront, map_singleton, map_singleton, hform]

/-! ## Visits of forms -/

namespace Form

variable {uses : List Use} {before after : Analysis}

theorem owns_untyped (environment : Environment) (form : Form) :
    form.owns environment.untyped = form.owns environment := by
  cases form with
  | constant | function =>
      simp only [owns, untyped, Table.get?_mapValues, Option.any_map]
  | _ => rfl

theorem owns_mark (uses : List Use) (environment : Environment) (form : Form) :
    form.owns (environment.mark uses) = form.owns environment := by
  cases form with
  | constant =>
      simp only [owns, mark, Table.get?_mapValues, Option.any_map]
      rfl
  | _ => rfl

theorem owns_marked (h : Marked uses before after) (form : Form) :
    form.owns after.environment = form.owns before.environment := by
  rw [← form.owns_untyped, h.environment, form.owns_mark, form.owns_untyped]

end Form

namespace Analyzer

theorem visitOwn_parallels {bond : Analysis.Bond} (owner : String) (scope : Scope)
    {body body' : List Expr} (h : body.map Expr.unplace = body'.map Expr.unplace) :
    Parallels bond (visitOwn owner scope body) (visitOwn owner scope body') := by
  refine .bind (.modify (bond.changeScope _)) fun _ first second hstates => ?_
  have hfirst := visitBody_parallels owner .uint body hstates
  have hsecond := visitBody_parallels owner .uint body' (bond.trans (bond.symm hstates) hstates)
  rw [Expr.unplaceList_eq] at hfirst hsecond
  rw [← h] at hsecond
  exact ⟨hfirst.1.trans hsecond.1.symm, bond.trans hfirst.2 (bond.symm hsecond.2)⟩

theorem functionScope_unplace (function : FunctionDef) :
    functionScope function.unplace = functionScope function := by
  simp only [functionScope, FunctionDef.unplace, foldl_map, Parameter.erase,
    TypeSpec.toValueType_erase]

theorem visited?_unplace : visited? form.unplace =
      (visited? form).map fun own => (own.1, own.2.1, own.2.2.map Expr.unplace) := by
  cases form with
  | function f => rw [Form.unplace, visited?, functionScope_unplace]; rfl
  | fungible info name supply => cases supply <;> rfl
  | _ => rfl

theorem setType_eq_self {form : Form}
    (howns : form.owns environment = false) (type : ValueType) :
    setType form type environment = environment := by
  unfold Form.owns at howns
  cases form with
  | constant info name value =>
      dsimp only [setType, setConstantType]
      rw [Table.modify_ite, if_neg (by simp [howns])]
  | function f =>
      dsimp only [setType, setReturnType]
      rw [Table.modify_ite, if_neg (by simp [howns])]
  | _ => rfl

theorem unplace_setType {form : Form}
    (howns : form.owns environment = true) (type : ValueType) :
    (setType form type environment).unplace = setType form.unplace type environment.unplace := by
  unfold Form.owns at howns
  cases form with
  | constant info name value =>
      dsimp only [setType, setConstantType, Form.unplace, unplace]
      rw [Table.modify_ite, if_pos howns]
      congr 1
      exact Table.mapValues_modify _ _ fun _ => (if_pos rfl).symm
  | function f =>
      dsimp only [setType, setReturnType, Form.unplace, unplace]
      rw [Table.modify_ite, if_pos howns]
      congr 1
      exact Table.mapValues_modify _ _ fun _ => (if_pos rfl).symm
  | _ => rfl

/-- A visit of a form depends on its place only as far as it tells whether the form owns its
name. -/
theorem unplace_visitForm {form form' : Form}
    (hform : Form.Alike analysis.environment analysis'.environment form form')
    (hanalysis : analysis.unplace = analysis'.unplace) :
    (visitForm form analysis).2.unplace = (visitForm form' analysis').2.unplace := by
  have hvisited := visited?_unplace form
  rw [hform.unplace, visited?_unplace] at hvisited
  cases hown : visited? form with
  | none =>
      rw [hown, Option.map_none, Option.map_eq_none_iff] at hvisited
      rw [visitForm_of_none hown, visitForm_of_none hvisited, hanalysis]
  | some own =>
      rw [hown, Option.map_some, Option.map_eq_some_iff] at hvisited
      obtain ⟨⟨owner, scope, body'⟩, hown', hsame⟩ := hvisited
      obtain ⟨_, _, body⟩ := own
      obtain ⟨rfl, rfl, hbody⟩ : owner = _ ∧ scope = _ ∧ _ := by simpa using hsame
      have hmarked := (visitOwn_noted owner scope body analysis).marked
      have hmarked' := (visitOwn_noted owner scope body' analysis').marked
      obtain ⟨htype, hstates⟩ : ParallelsAt .places analysis analysis' _ _ :=
        visitOwn_parallels owner scope hbody.symm hanalysis
      rw [visitForm_of_some hown, visitForm_of_some hown']
      generalize visitOwn owner scope body analysis = first at hmarked htype hstates ⊢
      generalize visitOwn owner scope body' analysis' = second at hmarked' htype hstates ⊢
      have henvironment : first.2.environment.unplace = second.2.environment.unplace :=
        congrArg Analysis.environment hstates
      have howns := hform.owns
      rw [← Form.owns_marked hmarked, ← Form.owns_marked hmarked'] at howns
      have hset : (setType form first.1 first.2.environment).unplace =
          (setType form' second.1 second.2.environment).unplace := by
        cases hfirst : form.owns first.2.environment with
        | true =>
            rw [unplace_setType hfirst, unplace_setType (howns ▸ hfirst), hform.unplace, htype,
              henvironment]
        | false =>
            rw [setType_eq_self hfirst, setType_eq_self (howns ▸ hfirst), henvironment]
      show first.2.unplace.changeEnvironment (fun _ => _) =
        second.2.unplace.changeEnvironment fun _ => _
      exact congr (congrArg Analysis.changeEnvironment (funext fun _ => hset)) hstates

theorem unplace_visitForms {forms : List Form}
    (hforms : List.Forall₂ (Form.Alike analysis.environment analysis'.environment) forms forms')
    (hanalysis : analysis.unplace = analysis'.unplace) :
    (visitForms forms analysis).2.unplace = (visitForms forms' analysis').2.unplace := by
  induction forms generalizing forms' analysis analysis' with
  | nil =>
      cases hforms
      exact hanalysis
  | cons form rest ih =>
      cases hforms with
      | @cons _ form' _ rest' hform hrest =>
          have hmarked := (visitForm_noted form analysis).marked
          have hmarked' := (visitForm_noted form' analysis').marked
          have hvisit : (visitForm form analysis).2.unplace =
            (visitForm form' analysis').2.unplace :=
            unplace_visitForm hform hanalysis
          have hothers : List.Forall₂ (Form.Alike (visitForm form analysis).2.environment
              (visitForm form' analysis').2.environment) rest rest' := by
            refine hrest.imp fun other other' hother => ⟨hother.unplace, ?_⟩
            rw [Form.owns_marked hmarked, Form.owns_marked hmarked', hother.owns]
          show (visitForms rest (visitForm form analysis).2).2.unplace =
            (visitForms rest' (visitForm form' analysis').2).2.unplace
          exact ih hothers hvisit

end Analyzer

/-! ## Warnings and functions -/

theorem Usage.warnings_unplace (environment : Environment) (facts : Facts) :
    warnings environment.unplace facts = (warnings environment facts).map Diagnostic.unplace := by
  simp only [warnings, unplace, Table.mapValues, filterMap_map, map_append,
    map_filterMap, unusedFunction, unusedConstant, unreadVariable, unreadMap,
    apply_ite (Option.map Diagnostic.unplace)]
  rfl

def Facts.CallSite.unplace (site : CallSite) : CallSite :=
  ⟨site.node.unplace, site.args.map Expr.unplace, site.info⟩

def Node.unplaceCall (call : NodeInfo × String × List Expr) : NodeInfo × String × List Expr :=
  (call.1.unplace, call.2.1, call.2.2.map Expr.unplace)

theorem Node.call?_unplace (node : Node) : node.unplace.call? = node.call?.map unplaceCall := by
  cases node with
  | expr e =>
      cases e with
      | call info callee args => simp [unplace, Expr.unplace, call?, unplaceCall]
      | conditional info condition yes no => cases no <;> rfl
      | _ => rfl
  | _ => rfl

theorem Facts.callsIn_unplace (facts : Facts) (body : List Expr) :
    facts.callsIn (body.map Expr.unplace) = (facts.callsIn body).map CallSite.unplace := by
  rw [callsIn, walkBody_unplace, filterMap_map, callsIn, map_filterMap]
  congr 1
  funext node
  rw [Function.comp_apply, node.call?_unplace]
  cases node.call? with
  | none => rfl
  | some call =>
      show ((facts.calls.get? call.1.id).bind fun known => _) =
        ((facts.calls.get? call.1.id).bind fun known => _).map _
      cases facts.calls.get? call.1.id <;> rfl

theorem returnTypeOf_eq (environment : Environment) (facts : Facts) (function : FunctionDef) :
    returnTypeOf environment facts function =
      if (Form.function function).owns environment then
        ((environment.unplace.functions.get? function.name).map FunctionEntry.returnType).getD .uint
      else
        (function.unplace.body.getLast?.bind fun expr => facts.types.get? expr.info.id).getD
          .uint := by
  have hlast : (function.unplace.body.getLast?.bind fun expr => facts.types.get? expr.info.id) =
      function.body.getLast?.bind fun expr => facts.types.get? expr.info.id := by
    show ((function.body.map Expr.unplace).getLast?.bind _) = _
    rw [getLast?_map]
    cases function.body.getLast? with
    | none => rfl
    | some expr => simp [NodeInfo.unplace]
  rw [returnTypeOf, environment.get?_functions_unplace, Form.owns, hlast]
  cases environment.functions.get? function.name with
  | none => rfl
  | some entry => simp [FunctionEntry.unplace]

theorem functionFacts_congr
    {function function' : FunctionDef} (henvironment : environment.unplace = environment'.unplace)
    (h : Form.Alike environment environment' (.function function) (.function function')) :
    functionFacts environment facts function = functionFacts environment' facts function' := by
  obtain ⟨hunplace, howns⟩ := h
  have hfunction : function.unplace = function'.unplace := Form.function.inj hunplace
  have hname : function.name = function'.name := by
    show function.unplace.name = function'.unplace.name
    rw [hfunction]
  have hcalls : (facts.callsIn function.body).map info =
      (facts.callsIn function'.body).map info := by
    have hinfo (body : List Expr) : (facts.callsIn body).map info =
        (facts.callsIn (body.map Expr.unplace)).map info := by
      rw [facts.callsIn_unplace, map_map]
      rfl
    have hbody : function.body.map Expr.unplace = function'.body.map Expr.unplace := by
      show function.unplace.body = function'.unplace.body
      rw [hfunction]
    rw [hinfo, hbody, ← hinfo]
  have hcontains : environment.functions.contains = environment'.functions.contains := by
    funext name
    rw [← environment.contains_functions_unplace, henvironment,
      environment'.contains_functions_unplace]
  have hreturn : returnTypeOf environment facts function =
      returnTypeOf environment' facts function' := by
    rw [returnTypeOf_eq, returnTypeOf_eq, howns, henvironment, hfunction, hname]
  simp only [functionFacts, hcalls, hcontains, hreturn]

theorem map_functionFacts_congr
    {body body' : List Form} (henvironment : environment.unplace = environment'.unplace)
    (h : List.Forall₂ (Form.Alike environment environment') body body') :
    (body.filterMap Form.function?).map
        (fun function => (function.info.id, functionFacts environment facts function)) =
      (body'.filterMap Form.function?).map
        fun function => (function.info.id, functionFacts environment' facts function) := by
  induction h with
  | nil => rfl
  | @cons form form' rest rest' hform _ ih =>
      have hfunction : form.function?.map FunctionDef.unplace =
          form'.function?.map FunctionDef.unplace := by
        rw [← form.function?_unplace, hform.unplace, form'.function?_unplace]
      cases form with
      | function f =>
          cases form' with
          | function f' =>
              have hid : f.info.id = f'.info.id := by
                show f.unplace.info.id = f'.unplace.info.id
                rw [Option.some_inj.mp hfunction]
              show (f.info.id, functionFacts environment facts f) :: _ =
                (f'.info.id, functionFacts environment' facts f') :: _
              rw [functionFacts_congr henvironment hform, hid]
              exact congrArg _ ih
          | _ => cases hfunction
      | _ =>
          have hnone : form'.function? = none := Option.map_eq_none_iff.mp hfunction.symm
          rw [filterMap_cons_none rfl, filterMap_cons_none hnone]
          exact ih

/-! ## Contracts -/

def SemanticResult.unplace (result : SemanticResult) : SemanticResult where
  contract := result.contract.unplace
  environment := result.environment.unplace
  facts := result.facts
  errors := result.errors.map Diagnostic.unplace
  warnings := result.warnings.map Diagnostic.unplace
  unknownCalls := unplaceCalls result.unknownCalls

theorem Contract.unplace_declaredAnalysis : contract.declaredAnalysis.unplace =
      ⟨(empty.declareAll contract.unplace.body).1, .empty,
        (empty.declareAll contract.unplace.body).2, [], [], .empty⟩ := by
  have hdeclared := empty.declareAll_unplace contract.body
  have hempty : empty.unplace = empty := rfl
  rw [hempty] at hdeclared
  show _ = (⟨(empty.declareAll (contract.body.map Form.unplace)).1, .empty,
    (empty.declareAll (contract.body.map Form.unplace)).2, [], [], .empty⟩ : Analysis)
  rw [hdeclared]
  rfl

theorem Contract.unplace_analyzeContract : (analyzeContract contract).unplace =
      { contract := contract.unplace
        environment := contract.visitedAnalysis.unplace.environment
        facts := annotate contract.visitedAnalysis.environment
          contract.visitedAnalysis.unplace.facts contract
        errors := contract.visitedAnalysis.unplace.errors
        warnings := contract.visitedAnalysis.unplace.warnings ++
          Usage.warnings contract.visitedAnalysis.unplace.environment
            contract.visitedAnalysis.unplace.facts
        unknownCalls := contract.visitedAnalysis.unplace.unknownCalls } := by
  dsimp only [Analysis.unplace]
  rw [Usage.warnings_unplace, ← map_append]
  rfl

/-- Two layouts of a contract whose forms stand at different places are analysed alike but for
places. -/
theorem analyzeContract_unplace {contract contract' : Contract}
    (h : contract.unplace = contract'.unplace)
    (hplaces : (contract.body.map (·.info.span)).Nodup)
    (hplaces' : (contract'.body.map (·.info.span)).Nodup) :
    (analyzeContract contract).unplace = (analyzeContract contract').unplace := by
  have hbody : contract.body.map Form.unplace = contract'.body.map Form.unplace := by
    show contract.unplace.body = contract'.unplace.body
    rw [h]
  have hdeclared : contract.declaredAnalysis.unplace = contract'.declaredAnalysis.unplace := by
    rw [contract.unplace_declaredAnalysis, contract'.unplace_declaredAnalysis, h]
  have halike : List.Forall₂ (Form.Alike contract.declaredAnalysis.environment
      contract'.declaredAnalysis.environment) contract.body contract'.body :=
    forall₂_alike (nil_append _).symm (nil_append _).symm hplaces hplaces' rfl hbody
  have hvisited : contract.visitedAnalysis.unplace = contract'.visitedAnalysis.unplace :=
    Analyzer.unplace_visitForms halike hdeclared
  have henvironment : contract.visitedAnalysis.environment.unplace =
      contract'.visitedAnalysis.environment.unplace := by
    show contract.visitedAnalysis.unplace.environment =
      contract'.visitedAnalysis.unplace.environment
    rw [hvisited]
  have halike' : List.Forall₂ (Form.Alike contract.visitedAnalysis.environment
      contract'.visitedAnalysis.environment) contract.body contract'.body := by
    refine halike.imp fun form form' hform => ⟨hform.unplace, ?_⟩
    rw [Form.owns_marked contract.visitedAnalysis_marked,
      Form.owns_marked contract'.visitedAnalysis_marked, hform.owns]
  have hannotate (facts : Facts) : annotate contract.visitedAnalysis.environment facts contract =
      annotate contract'.visitedAnalysis.environment facts contract' := by
    rw [annotate, annotate, Contract.functions, Contract.functions,
      map_functionFacts_congr henvironment halike']
  rw [contract.unplace_analyzeContract, contract'.unplace_analyzeContract, h, hvisited, hannotate]

end ContractAudit
