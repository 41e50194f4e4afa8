import ContractAudit.Proofs.Parse.FormNames
import ContractAudit.Proofs.Semantic.Calls
import ContractAudit.Proofs.Semantic.Layout

/-!
# First definitions

Of the definitions of a name in one table the first counts. It makes the entry, every later one is
reported, and only it sets the type of the entry: the visit of a later definition marks what it
uses, but it does not own the name. So a contract without its later definitions has the same
environment up to marks of use (`unmarked_withoutDuplicates`).
-/

namespace ContractAudit

open List Environment Diagnostic Parse Analysis Analyzer

variable {α : Type} {seen : List (Namespace × String)} {table : Table String α} {name : String}
  {before : Analysis} {uses : List Use}

def Namespace.label : Namespace → String
  | .functions => "Function"
  | .constants => "Constant"
  | .dataVars => "Variable"
  | .maps => "Map"
  | .traits => "Trait"
  | .tokens => "Token"

/-- Whether an error is about a second definition in a table. -/
def Diagnostic.reportsDuplicate (space : Namespace) (diagnostic : Diagnostic) : Bool :=
  diagnostic.code = .duplicateDefinition &&
    (space.label ++ " '").toList.isPrefixOf diagnostic.message.toList

namespace Environment

def places (environment : Environment) : Namespace → Table String Span
  | .functions => environment.functions.mapValues fun _ => FunctionEntry.span
  | .constants => environment.constants.mapValues fun _ => ConstantEntry.span
  | .dataVars => environment.dataVars.mapValues fun _ => VariableEntry.span
  | .maps => environment.maps.mapValues fun _ => MapEntry.span
  | .traits => environment.traits.mapValues fun _ => TraitEntry.span
  | .tokens => environment.tokens.mapValues fun _ => TokenEntry.span

variable (environment : Environment)

theorem places_untyped : environment.untyped.places = environment.places := by
  funext space
  cases space <;> simp [places, untyped, Table.mapValues_mapValues]

theorem places_mark (uses : List Use) : (environment.mark uses).places = environment.places := by
  funext space
  cases space <;> simp only [places, mark, Table.mapValues_mapValues] <;> rfl

theorem places_marked {after : Analysis} (h : Marked uses before after) :
    after.environment.places = before.environment.places := by
  rw [← places_untyped, h.environment, places_mark, places_untyped]

end Environment

def DeclaredTable.places (space : Namespace) : DeclaredTable Span where
  space := space
  table environment := environment.places space
  made? form := (form.definition?.filter (·.1 = space)).map fun definition =>
    (definition.2, form.info.span)
  table_empty := by cases space <;> rfl
  table_declare environment form := by
    cases form <;> cases space <;> first | rfl | exact (declareIn_mapValues ..).symm
  definition_entry form := by
    cases hdefinition : form.definition?.filter (·.1 = space) with
    | none => rfl
    | some definition =>
        have hspace : definition.1 = space := by
          simpa using (Option.filter_eq_some_iff.mp hdefinition).2
        rw [← hspace]
        rfl

namespace Environment

variable (environment : Environment)

/-! ## Every definition is entered, reported or without a name -/

theorem declare_snd (form : Form) :
    (environment.declare form).2 = form.definition?.bind fun definition =>
      duplicate? (environment.places definition.1) definition.1.label definition.2
        form.info.span.start := by
  cases form <;> simp [declare, Form.definition?, places, duplicate?, Namespace.label,
    Table.contains_mapValues]

theorem reportsDuplicate_of_duplicate? {space : Namespace} {location : Location}
    {error : Diagnostic} (h : duplicate? table space.label name location = some error)
    (other : Namespace) : error.reportsDuplicate other = decide (space = other) := by
  unfold duplicate? at h
  split at h
  · cases h
    cases space <;> cases other <;>
      simp [reportsDuplicate, error, Namespace.label, ToString.toString,
        List.isPrefixOf]
  · cases h

theorem countP_duplicate? (table : Table String α) (space other : Namespace)
    (name : String) (location : Location) :
    (duplicate? table space.label name location).toList.countP (reportsDuplicate other) =
      if space = other ∧ name ≠ placeholder ∧ table.contains name then 1 else 0 := by
  cases hduplicate : duplicate? table space.label name location with
  | none =>
      have : ¬ (name ≠ placeholder ∧ table.contains name) := by
        simpa [duplicate?] using hduplicate
      simp [this]
  | some error =>
      have : name ≠ placeholder ∧ table.contains name := by
        unfold duplicate? at hduplicate
        split at hduplicate
        · next hheld => simpa using hheld
        · cases hduplicate
      simp [reportsDuplicate_of_duplicate? hduplicate, this]

theorem size_declareIn (table : Table String α) (name : String) (entry : α) :
    (declareIn table name entry).size =
      table.size + if name ≠ placeholder ∧ ¬ table.contains name then 1 else 0 := by
  unfold declareIn isNew
  by_cases hname : name = placeholder
  · simp [hname]
  · cases hheld : table.contains name with
    | true => simp [hname]
    | false =>
        have hnew : name ∉ table.keys := fun hmem => by simp [Table.contains_iff.mpr hmem] at hheld
        simp [hname, Table.size, Table.entries_insert_of_not_mem hnew]

theorem count_declare (form : Form) (space : Namespace) : (environment.places space).size +
        [form].countP (fun form => form.definition?.any (·.1 = space)) =
      ((environment.declare form).1.places space).size +
        (environment.declare form).2.toList.countP (reportsDuplicate space) +
        [form].countP (fun form => form.definition? = some (space, placeholder)) := by
  have htable := (DeclaredTable.places space).table_declare environment form
  dsimp only [DeclaredTable.places] at htable
  rw [declare_snd]
  cases hdefinition : form.definition? with
  | none => simp [htable, hdefinition]
  | some definition =>
      obtain ⟨found, name⟩ := definition
      rw [hdefinition] at htable
      rw [Option.bind_some, countP_duplicate?]
      by_cases hspace : found = space
      · rw [Option.filter_some_pos (by simpa using hspace)] at htable
        simp only [htable, Option.map_some, size_declareIn]
        by_cases hname : name = placeholder
        · simp [hdefinition, hspace, hname]
        · cases hheld : (environment.places space).contains name <;>
            simp [hdefinition, hspace, hname, hheld]
      · rw [Option.filter_some_neg (by simpa using hspace)] at htable
        simp [htable, hdefinition, hspace]

theorem count_declareAll (forms : List Form) (space : Namespace) : (environment.places space).size +
        forms.countP (fun form => form.definition?.any (·.1 = space)) =
      ((environment.declareAll forms).1.places space).size +
        (environment.declareAll forms).2.countP (reportsDuplicate space) +
        forms.countP (fun form => form.definition? = some (space, placeholder)) := by
  induction forms generalizing environment with
  | nil => simp [declareAll]
  | cons form rest ih =>
      have hform := environment.count_declare form space
      have hrest := ih (environment.declare form).1
      show _ = (((environment.declare form).1.declareAll rest).1.places space).size +
        ((environment.declare form).2.toList ++
          ((environment.declare form).1.declareAll rest).2).countP _ + _
      rw [← singleton_append, countP_append, countP_append, countP_append]
      omega

end Environment

/-! ## Contracts without later definitions -/

/-- The forms that do not define again what some others or forms before them define. -/
def firstForms (seen : List (Namespace × String)) : List Form → List Form
  | [] => []
  | form :: rest =>
      if (definitions [form]).any seen.contains then firstForms seen rest
      else form :: firstForms (seen ++ definitions [form]) rest

def Contract.withoutDuplicates (contract : Contract) : Contract :=
  { contract with body := firstForms [] contract.body }

namespace Environment

variable {environment : Environment}

theorem declareIn_of_contains (h : table.contains name = true) (entry : α) :
    declareIn table name entry = table := by
  simp [declareIn, isNew, h]

/-- A definition that has been declared changes nothing. -/
theorem declare_of_holds {form : Form} {definition : Namespace × String}
    (hform : definition ∈ definitions [form]) (h : environment.holds definition = true) :
    (environment.declare form).1 = environment := by
  obtain ⟨hdefinition, _⟩ := mem_definitions_singleton.mp hform
  cases form <;> cases hdefinition
  all_goals
    dsimp only [declare, holds] at h ⊢
    rw [declareIn_of_contains h]

theorem declareAll_firstForms
    (h : ∀ definition, environment.holds definition = true ↔ definition ∈ seen)
    (forms : List Form) :
    (environment.declareAll (firstForms seen forms)).1 = (environment.declareAll forms).1 := by
  induction forms generalizing environment seen with
  | nil => rfl
  | cons form rest ih =>
      rw [firstForms]
      split
      · next hseen =>
          obtain ⟨definition, hform, hmem⟩ := any_eq_true.mp hseen
          have hheld := declare_of_holds hform ((h definition).mpr (by simpa using hmem))
          show _ = ((environment.declare form).1.declareAll rest).1
          rw [hheld, ih h]
      · show ((environment.declare form).1.declareAll (firstForms _ rest)).1 =
          ((environment.declare form).1.declareAll rest).1
        refine ih fun definition => ?_
        rw [holds_declare, h, mem_append]

theorem declareAll_withoutDuplicates (contract : Contract) :
    (empty.declareAll contract.withoutDuplicates.body).1 = (empty.declareAll contract.body).1 :=
  declareAll_firstForms (fun definition => by
    obtain ⟨space, name⟩ := definition
    cases space <;> simp [holds, empty, Table.empty, Table.contains]) _

def unmarked (environment : Environment) : Environment :=
  { environment with
    constants := environment.constants.mapValues fun _ entry => { entry with used := false }
    dataVars := environment.dataVars.mapValues fun _ entry =>
      { entry with accessed := false, modified := false }
    maps := environment.maps.mapValues fun _ entry =>
      { entry with accessed := false, modified := false }
    tokens := environment.tokens.mapValues fun _ entry =>
      { entry with accessed := false, modified := false } }

theorem signature_unmarked (environment : Environment) :
    environment.unmarked.signature = environment.signature := by
  simp only [signature, unmarked, Table.mapValues_mapValues]

theorem unmarked_use (use : Use) (analysis : Analysis) :
    (analysis.use use).environment.unmarked = analysis.environment.unmarked := by
  rcases use with name | ⟨name, access⟩ | ⟨name, access⟩ | name | ⟨name, owner⟩
  case function => rfl
  all_goals
    dsimp only [use, useConstant, useVariable, useMap,
      useToken, changeEnvironment, unmarked]
    rw [Table.mapValues_modify_of_eq _ _ fun entry => by first | rfl | cases access <;> rfl]

theorem unmarked_setType (form : Form) (type : ValueType) (environment : Environment) :
    (setType form type environment).unmarked =
      setType form type environment.unmarked := by
  cases form with
  | constant info name value =>
      dsimp only [setType, setConstantType, unmarked]
      congr 1
      exact Table.mapValues_modify _ _ fun entry => by split_ifs <;> rfl
  | _ => rfl

end Environment

/-- States with one environment up to marks of use, and with one scope. -/
def Analysis.Bond.marks (declared : Environment) : Bond where
  related first second := first.environment.unmarked = declared ∧
    second.environment.unmarked = declared ∧ first.scope = second.scope
  symm h := ⟨h.2.1, h.1, h.2.2.symm⟩
  trans hfirst hsecond := ⟨hfirst.1, hsecond.2.1, hfirst.2.2.trans hsecond.2.2⟩
  signature {first second} h := by
    rw [← first.environment.signature_unmarked, h.1, ← h.2.1, signature_unmarked]
  scope h := h.2.2
  changeScope change h := ⟨h.1, h.2.1, congrArg change h.2.2⟩
  changeFacts _ h := h
  use use h := by
    rw [unmarked_use, unmarked_use]
    exact h
  error _ _ _ _ h := h
  warning _ _ _ _ h := h
  unknown _ _ _ h := h

namespace Analyzer

variable {first second : Analysis}

theorem visitOwn_unmarked (h : first.environment.unmarked = second.environment.unmarked)
    (owner : String) (scope : Scope) (body : List Expr) :
    (visitOwn owner scope body first).1 = (visitOwn owner scope body second).1 ∧
      (visitOwn owner scope body first).2.environment.unmarked = first.environment.unmarked := by
  have hvisit : ParallelsAt (.marks first.environment.unmarked)
      (first.changeScope fun _ => scope) (second.changeScope fun _ => scope)
      (visitOwn owner scope body) (visitOwn owner scope body) :=
    visitOwn_parallels owner scope rfl ⟨rfl, h.symm, rfl⟩
  exact ⟨hvisit.1, hvisit.2.1⟩

/-- What is marked does not change what the visit of a form sets. -/
theorem unmarked_visitForm (h : first.environment.unmarked = second.environment.unmarked)
    (form : Form) :
    (visitForm form first).2.environment.unmarked =
      (visitForm form second).2.environment.unmarked := by
  cases hvisited : visited? form with
  | none => rw [visitForm_of_none hvisited, visitForm_of_none hvisited, h]
  | some own =>
      obtain ⟨owner, scope, body⟩ := own
      obtain ⟨htype, hfirst⟩ := visitOwn_unmarked h owner scope body
      obtain ⟨_, hsecond⟩ := visitOwn_unmarked h.symm owner scope body
      rw [visitForm_of_some hvisited, visitForm_of_some hvisited]
      show (setType form _ _).unmarked = (setType form _ _).unmarked
      rw [unmarked_setType, unmarked_setType, hfirst, hsecond, h, htype]

theorem unmarked_visitForm_of_not_owns {analysis : Analysis} {form : Form}
    (howns : form.owns analysis.environment = false) :
    (visitForm form analysis).2.environment.unmarked = analysis.environment.unmarked := by
  cases hvisited : visited? form with
  | none => rw [visitForm_of_none hvisited]
  | some own =>
      obtain ⟨owner, scope, body⟩ := own
      have hmarked := (visitOwn_noted owner scope body analysis).marked
      rw [← Form.owns_marked hmarked] at howns
      rw [visitForm_of_some hvisited]
      show (setType form _ _).unmarked = _
      rw [setType_eq_self howns]
      exact (visitOwn_unmarked rfl owner scope body).2

/-- Forms that define a name again can be left out of a visit: the declared definition of the name
is before them. -/
theorem unmarked_visitForms {forms front rest : List Form} (hforms : forms = front ++ rest)
    (hplaces : (forms.map (·.info.span)).Nodup)
    (hbefore : before.environment = (empty.declareAll forms).1)
    (hmarked : Marked uses before first)
    (hseen : ∀ definition ∈ seen, definition ∈ definitions front)
    (h : first.environment.unmarked = second.environment.unmarked) :
    (visitForms rest first).2.environment.unmarked =
      (visitForms (firstForms seen rest) second).2.environment.unmarked := by
  induction rest generalizing front uses seen first second with
  | nil => exact h
  | cons form rest ih =>
      have hlonger : forms = front ++ [form] ++ rest := by
        rw [hforms, append_assoc, singleton_append]
      have hnext := hmarked.append (visitForm_noted form first).marked
      have hdefinitions : definitions (front ++ [form]) = definitions front ++
        definitions [form] := by
        simp only [definitions, filterMap_append, filter_append]
      rw [firstForms]
      show (visitForms rest (visitForm form first).2).2.environment.unmarked = _
      split
      · next hagain =>
          have howns : form.owns first.environment = false := by
            rw [Form.owns_marked hmarked, hbefore, hforms, Form.owns_eq_isFirst (hforms ▸ hplaces)]
            obtain ⟨definition, hform, hmem⟩ := any_eq_true.mp hagain
            have hfront := hseen definition (by simpa using hmem)
            rw [(mem_definitions_singleton.mp hform).1]
            simp [isFirst, hfront]
          refine ih hlonger hnext (fun definition hmem => ?_) ?_
          · rw [hdefinitions]
            exact mem_append_left _ (hseen definition hmem)
          · rw [unmarked_visitForm_of_not_owns howns, h]
      · refine ih hlonger hnext (fun definition hmem => ?_) (unmarked_visitForm h form)
        rw [hdefinitions, mem_append]
        exact (mem_append.mp hmem).imp_left (hseen definition)

end Analyzer

namespace Contract

variable (contract : Contract)

/-- Without its later definitions a contract has the same environment up to marks of use. -/
theorem unmarked_withoutDuplicates (h : (contract.body.map (·.info.span)).Nodup) :
    (analyzeContract contract).environment.unmarked =
      (analyzeContract contract.withoutDuplicates).environment.unmarked := by
  have hmarked : Marked [] contract.declaredAnalysis contract.declaredAnalysis := .quiet rfl rfl rfl
  refine unmarked_visitForms (nil_append _).symm h rfl hmarked nofun ?_
  exact congrArg unmarked (declareAll_withoutDuplicates contract).symm

theorem places_analyzeContract (space : Namespace) :
    (analyzeContract contract).environment.places space =
      .ofFirst ((DeclaredTable.places space).entries contract.body) := by
  rw [← (DeclaredTable.places space).table_declareAll_empty]
  exact congrFun (places_marked contract.visitedAnalysis_marked) space

theorem keys_places_analyzeContract (space : Namespace) :
    ((analyzeContract contract).environment.places space).keys =
      distinct (((definitions contract.body).filter (·.1 = space)).map Prod.snd) := by
  have hentries := (DeclaredTable.places space).map_entries contract.body
  rw [places_analyzeContract, Table.keys_ofFirst]
  refine congrArg distinct (Eq.trans ?_ (congrArg (List.map Prod.snd) hentries))
  rw [map_map]
  rfl

theorem get?_places_analyzeContract (space : Namespace) (h : name ≠ placeholder) :
    ((analyzeContract contract).environment.places space).get? name =
      (contract.body.find? (·.definition? = some (space, name))).map (·.info.span) := by
  have hmade (form : Form) : ((DeclaredTable.places space).made? form).any (fun entry =>
      entry.1 ≠ placeholder ∧ entry.1 = name) =
        decide (form.definition? = some (space, name)) := by
    dsimp only [DeclaredTable.places]
    cases form.definition? with
    | none => rfl
    | some definition => grind
  rw [places_analyzeContract, Table.get?_ofFirst, DeclaredTable.entries, find?_filter,
    find?_filterMap]
  simp only [decide_eq_true_eq, hmade]
  cases hfound : contract.body.find? (·.definition? = some (space, name)) with
  | none => rfl
  | some form =>
      have hdefinition : form.definition? = some (space, name) := by simpa using find?_some hfound
      simp [DeclaredTable.places, hdefinition]

theorem countP_errors_analyzeContract (space : Namespace) :
    contract.body.countP (fun form => form.definition?.any (·.1 = space)) =
      ((analyzeContract contract).environment.places space).size +
        (analyzeContract contract).errors.countP (reportsDuplicate space) +
        contract.body.countP (fun form => form.definition? = some (space, placeholder)) := by
  have hdeclared := empty.count_declareAll contract.body space
  have hmentions : (contract.mentions.filterMap (Mention.error? contract.declared)).countP
      (reportsDuplicate space) = 0 := by
    rw [countP_eq_zero]
    intro error herror
    obtain ⟨mention, _, hmention⟩ := mem_filterMap.mp herror
    simp [reportsDuplicate, (Mention.location_of_error? hmention).1]
  have hempty : (empty.places space).size = 0 := by cases space <;> rfl
  rw [(analyzeContract_met contract).2, countP_append, hmentions, environment_analyzeContract,
    places_marked contract.visitedAnalysis_marked]
  show _ = ((empty.declareAll contract.body).1.places space).size + _ + _
  omega

/-- In every pass over a contract the first definition of a name counts. -/
structure FirstWins : Prop where
  /-- A table holds the names that are defined in it, each once and where it is first defined. -/
  names : ∀ space, ((analyzeContract contract).environment.places space).keys =
    distinct (((definitions contract.body).filter (·.1 = space)).map Prod.snd)
  /-- An entry stands for the first definition of its name. -/
  spans : ∀ space name, name ≠ placeholder →
    ((analyzeContract contract).environment.places space).get? name =
      (contract.body.find? (·.definition? = some (space, name))).map (·.info.span)
  count : ∀ space, contract.body.countP (fun form => form.definition?.any (·.1 = space)) =
    ((analyzeContract contract).environment.places space).size +
      (analyzeContract contract).errors.countP (reportsDuplicate space) +
      contract.body.countP (fun form => form.definition? = some (space, placeholder))
  /-- Later definitions only mark what they use. -/
  environment : (analyzeContract contract).environment.unmarked =
    (analyzeContract contract.withoutDuplicates).environment.unmarked
  /-- Later definitions are visited too. -/
  visited : ∀ form ∈ contract.body, (∀ site ∈ callSites (Expr.postorderList form.children),
      (analyzeContract contract).facts.calls.get? site.node.id = some site.info) ∧
    ∀ mention ∈ form.mentions, (analyzeContract contract).facts.resolutions.get? mention.info.id =
        mention.resolution? contract.declared ∧
      ∀ error, mention.error? contract.declared = some error →
        error ∈ (analyzeContract contract).errors

end Contract

/-- The first definition wins. In the analysis of a parsed text, each table has the names that
are defined in it in the order of their first definitions, with the places of these. The
definitions of a table are as many as its entries, the errors about names that are defined again
in it and the definitions whose names could not be read. Without the later definitions the
contract has the same environment up to marks of use, though they are visited as well: their
calls and their identifiers are recorded, and what is undefined in them is reported. -/
theorem analyzeContract_first_definition_wins {source : String} {result : ParseResult}
    (h : parse source = .ok result) : result.contract.FirstWins where
  names := result.contract.keys_places_analyzeContract
  spans space _ hname := result.contract.get?_places_analyzeContract space hname
  count := result.contract.countP_errors_analyzeContract
  environment := result.contract.unmarked_withoutDuplicates (nodup_formSpans h)
  visited form hform := by
    unfold parse at h
    have hnumbers := (parseTokens_made h).1
    constructor
    · intro site hsite
      obtain ⟨node, hnode, hsite⟩ := List.mem_filterMap.mp hsite
      exact get?_calls_analyzeContract hnumbers
        (List.mem_filterMap.mpr ⟨node, List.mem_flatMap.mpr ⟨form, hform, hnode⟩, hsite⟩)
    · intro mention hmention
      have hmention : mention ∈ result.contract.mentions :=
        List.mem_flatMap.mpr ⟨form, hform, hmention⟩
      refine ⟨Contract.get?_resolutions_of_mem hnumbers hmention, fun error herror => ?_⟩
      rw [(analyzeContract_met result.contract).2, List.mem_append, List.mem_filterMap]
      exact .inr ⟨mention, hmention, herror⟩

def repeatedDefinitions : String :=
  "(define-constant a 1) (define-constant a true) (define-private (f) a) " ++
    "(define-private (f) (g b)) (define-constant 5 6)"

theorem first_definition_wins_repeatedDefinitions :
    ∃ result, parse repeatedDefinitions = .ok result ∧ result.contract.body.length = 5 ∧
      result.contract.withoutDuplicates.body.length = 3 ∧ result.contract.FirstWins := by
  obtain ⟨result, hparse, hall, hfirst⟩ : ∃ result, parse repeatedDefinitions = .ok result ∧
      result.contract.body.length = 5 ∧ result.contract.withoutDuplicates.body.length = 3 :=
    exists_parse (append_eq_ofList rfl rfl) (by decide +kernel)
  exact ⟨result, hparse, hall, hfirst, analyzeContract_first_definition_wins hparse⟩

end ContractAudit
