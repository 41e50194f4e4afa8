import ContractAudit.Proofs.Semantic.Visit
import ContractAudit.Proofs.Syntax.Unplace

/-!
# Visits side by side

A visit of an expression reads the numbers of the nodes, the names in them and the types of names
that are declared or in scope. Of the places it makes nothing but the locations of what it reports.
So from two states that agree in these types, a visit of an expression and one of the same
expression without its places give the same type. `Bond` says of a relation between states what
makes them end in related states too, and `Parallels` says so of two steps and passes from the parts
of a visit to the whole.
-/

namespace ContractAudit

variable (callee : String) (args : List Expr)

/-! ## Entries and reports without places -/

def FunctionEntry.unplace (entry : FunctionEntry) : FunctionEntry :=
  { entry with span := .nowhere }

def ConstantEntry.unplace (entry : ConstantEntry) : ConstantEntry :=
  { entry with span := .nowhere }

def VariableEntry.unplace (entry : VariableEntry) : VariableEntry :=
  { entry with span := .nowhere }

def MapEntry.unplace (entry : MapEntry) : MapEntry :=
  { entry with span := .nowhere }

def TraitEntry.unplace (entry : TraitEntry) : TraitEntry :=
  { entry with span := .nowhere }

def TokenEntry.unplace (entry : TokenEntry) : TokenEntry :=
  { entry with span := .nowhere }

def Environment.unplace (environment : Environment) : Environment where
  functions := environment.functions.mapValues fun _ => FunctionEntry.unplace
  constants := environment.constants.mapValues fun _ => ConstantEntry.unplace
  dataVars := environment.dataVars.mapValues fun _ => VariableEntry.unplace
  maps := environment.maps.mapValues fun _ => MapEntry.unplace
  traits := environment.traits.mapValues fun _ => TraitEntry.unplace
  tokens := environment.tokens.mapValues fun _ => TokenEntry.unplace

def Diagnostic.unplace (diagnostic : Diagnostic) : Diagnostic :=
  { diagnostic with location := .nowhere }

def unplaceCalls (calls : List (String × Location)) : List (String × Location) :=
  calls.map fun call => (call.1, .nowhere)

def Analysis.unplace (analysis : Analysis) : Analysis where
  environment := analysis.environment.unplace
  facts := analysis.facts
  errors := analysis.errors.map Diagnostic.unplace
  warnings := analysis.warnings.map Diagnostic.unplace
  unknownCalls := unplaceCalls analysis.unknownCalls
  scope := analysis.scope

/-- What a visit reads of the names that a contract defines: the types, and the kinds of the
tokens. -/
structure Signature where
  functions : Table String ValueType
  constants : Table String ValueType
  dataVars : Table String ValueType
  maps : Table String ValueType
  tokens : Table String Bool

namespace Environment

variable (environment : Environment)

def signature (environment : Environment) : Signature where
  functions := environment.functions.mapValues fun _ => FunctionEntry.returnType
  constants := environment.constants.mapValues fun _ => ConstantEntry.type
  dataVars := environment.dataVars.mapValues fun _ => VariableEntry.type
  maps := environment.maps.mapValues fun _ => MapEntry.valueType
  tokens := environment.tokens.mapValues fun _ => TokenEntry.fungible

theorem signature_unplace : environment.unplace.signature = environment.signature := by
  simp only [signature, unplace, Table.mapValues_mapValues]
  rfl

theorem get?_functions_unplace (name : String) : environment.unplace.functions.get? name =
      (environment.functions.get? name).map FunctionEntry.unplace :=
  Table.get?_mapValues _ _ _

theorem contains_functions_unplace (name : String) :
    environment.unplace.functions.contains name = environment.functions.contains name :=
  Table.contains_mapValues _ _ _

end Environment

section Tables

variable {α β : Type} {part : α → β} {first second : Table String α}
  (h : (first.mapValues fun _ => part) = second.mapValues fun _ => part) (name : String)

include h

theorem Table.map_get?_of_mapValues_eq :
    (first.get? name).map part = (second.get? name).map part := by
  simpa only [get?_mapValues] using congrArg (·.get? name) h

theorem Table.get?_of_mapValues_eq : first.get? name = none ∧ second.get? name = none ∨
      ∃ entry other, first.get? name = some entry ∧ second.get? name = some other ∧
        part entry = part other := by
  have hget := map_get?_of_mapValues_eq h name
  cases hfirst : first.get? name <;> cases hsecond : second.get? name <;> simp_all

theorem Table.contains_of_mapValues_eq : first.contains name = second.contains name := by
  rw [← contains_mapValues (fun _ => part), h, contains_mapValues]

end Tables

namespace Analysis

variable (analysis : Analysis)

theorem unplace_use (use : Use) : (analysis.use use).unplace = analysis.unplace.use use := by
  rcases use with name | ⟨name, access⟩ | ⟨name, access⟩ | name | ⟨name, owner⟩
  case function => rfl
  all_goals
    dsimp only [use, useConstant, useVariable, useMap, useToken, changeEnvironment, unplace,
      Environment.unplace]
    congr 2
    refine Table.mapValues_modify _ _ fun entry => ?_
    first | rfl | cases access <;> rfl

theorem unplace_reportError (code : Code) (message : String) (location : Location) :
    (analysis.reportError code message location).unplace =
      analysis.unplace.reportError code message .nowhere := by
  simp [reportError, unplace, Diagnostic.unplace, Diagnostic.error]

theorem unplace_reportWarning (code : Code) (message : String) (location : Location) :
    (analysis.reportWarning code message location).unplace =
      analysis.unplace.reportWarning code message .nowhere := by
  simp [reportWarning, unplace, Diagnostic.unplace, Diagnostic.warning]

/-- The analysis with one more call of an unknown function. -/
def noteUnknown (callee : String) (location : Location) (analysis : Analysis) : Analysis :=
  { analysis with unknownCalls := analysis.unknownCalls ++ [(callee, location)] }

theorem unplace_noteUnknown (callee : String) (location : Location) :
    (analysis.noteUnknown callee location).unplace =
      analysis.unplace.noteUnknown callee .nowhere := by
  simp [noteUnknown, unplace, unplaceCalls]

/-- A relation between states that agree in what a visit reads and that stay related by what it
does; where it notes a place, the places may differ. -/
structure Bond where
  related : Analysis → Analysis → Prop
  symm : ∀ {first second}, related first second → related second first
  trans : ∀ {first second third}, related first second → related second third → related first third
  signature : ∀ {first second}, related first second →
    first.environment.signature = second.environment.signature
  scope : ∀ {first second}, related first second → first.scope = second.scope
  changeScope : ∀ {first second} change, related first second →
    related (first.changeScope change) (second.changeScope change)
  changeFacts : ∀ {first second} change, related first second →
    related (first.changeFacts change) (second.changeFacts change)
  use : ∀ {first second} use, related first second → related (first.use use) (second.use use)
  error : ∀ {first second} code message location location', related first second →
    related (first.reportError code message location) (second.reportError code message location')
  warning : ∀ {first second} code message location location', related first second →
    related (first.reportWarning code message location)
      (second.reportWarning code message location')
  unknown : ∀ {first second} callee location location', related first second →
    related (first.noteUnknown callee location) (second.noteUnknown callee location')

def Bond.places : Bond where
  related first second := first.unplace = second.unplace
  symm := Eq.symm
  trans := Eq.trans
  signature {first second} h := by
    rw [← first.environment.signature_unplace, ← second.environment.signature_unplace]
    exact congrArg (·.environment.signature) h
  scope {first second} h := by
    show first.unplace.scope = second.unplace.scope
    rw [h]
  changeScope change h := congrArg (Analysis.changeScope change) h
  changeFacts change h := congrArg (Analysis.changeFacts change) h
  use use h := by rw [unplace_use, unplace_use, h]
  error code message location location' h := by rw [unplace_reportError, unplace_reportError, h]
  warning code message location location' h := by
    rw [unplace_reportWarning, unplace_reportWarning, h]
  unknown callee location location' h := by rw [unplace_noteUnknown, unplace_noteUnknown, h]

end Analysis

/-! ## Calls -/

theorem CallInfo.storageName?_unplace :
    storageName? (args.map Expr.unplace) = storageName? args := by
  cases args with
  | nil => rfl
  | cons arg rest =>
      cases arg with
      | conditional info condition yes no => cases no <;> rfl
      | _ => rfl

theorem CallInfo.ofCall_unplace : ofCall callee (args.map Expr.unplace) = ofCall callee args := by
  simp only [ofCall, effectsOf, storageEffect, storageName?_unplace]

namespace Analyzer

variable {p : Prop} (owner : String) (id : Nat) (info : NodeInfo) (message : String)
  (kind : Referent) (location : Location)

theorem armScope_unplace (subject : ValueType) (pattern : Pattern) (index : Nat) :
    armScope subject pattern.unplace index = armScope subject pattern index := by
  have htype : boundType subject pattern.unplace index = boundType subject pattern index := by
    rcases pattern with ⟨_, _ | _ | _, _ | _⟩ | _ | _ | _ <;> rfl
  funext scope
  simp only [armScope, pattern.boundNames_unplace, htype]

theorem callType_congr {environment environment' : Environment}
    (h : environment.signature = environment'.signature) (callee : String) (args : List Expr)
    (types : List ValueType) :
    callType environment callee args types =
      callType environment' callee (args.map Expr.unplace) types := by
  have hpart {α : Type} {part : α → ValueType} {table table' : Table String α}
      (h : (table.mapValues fun _ => part) = table'.mapValues fun _ => part)
      (target : Option String) :
      ((target.bind table.get?).map part) = (target.bind table'.get?).map part := by
    cases target with
    | none => rfl
    | some name => exact Table.map_get?_of_mapValues_eq h name
  have hfunction := Table.map_get?_of_mapValues_eq (congrArg Signature.functions h) callee
  have hvariable := hpart (congrArg Signature.dataVars h)
  have hmap := hpart (congrArg Signature.maps h)
  simp only [callType, CallInfo.storageName?_unplace, hfunction, hvariable, hmap]

/-! ## Steps -/

variable {α β : Type} {bond : Analysis.Bond}

/-- From two states two steps give the same value, and they end in related states. -/
def ParallelsAt (bond : Analysis.Bond) (first second : Analysis)
    (step step' : Analyzer α) : Prop :=
  (step first).1 = (step' second).1 ∧ bond.related (step first).2 (step' second).2

/-- From related states two steps give the same value, and they end in related states. -/
def Parallels (bond : Analysis.Bond) (step step' : Analyzer α) : Prop :=
  ∀ ⦃first second⦄, bond.related first second → ParallelsAt bond first second step step'

namespace Parallels

variable {step step' : Analyzer α} {next next' : α → Analyzer β}

theorem pure (value : α) : Parallels bond (pure value) (pure value) :=
  fun _ _ h => ⟨rfl, h⟩

theorem bind (hstep : Parallels bond step step')
    (hnext : ∀ value, Parallels bond (next value) (next' value)) :
    Parallels bond (step >>= next) (step' >>= next') := by
  intro first second h
  obtain ⟨hvalue, hstates⟩ := hstep h
  show ParallelsAt bond (step first).2 (step' second).2 (next _) (next' _)
  rw [← hvalue]
  exact hnext _ hstates

theorem modify {change change' : Analysis → Analysis}
    (h : ∀ {first second}, bond.related first second →
      bond.related (change first) (change' second)) :
    Parallels bond (modify change) (modify change') :=
  fun _ _ hstates => ⟨rfl, h hstates⟩

theorem branch [Decidable p] {other other' : Analyzer α} (hstep : Parallels bond step step')
    (hother : Parallels bond other other') :
    Parallels bond (if p then step else other) (if p then step' else other') := by
  split
  · exact hstep
  · exact hother

theorem get {next next' : Analysis → Analyzer β} (h : ∀ {first second}, bond.related first second →
      ParallelsAt bond first second (next first) (next' second)) :
    Parallels bond (get >>= next) (get >>= next') :=
  fun _ _ hstates => h hstates

theorem inScope (inner : Scope → Scope) (hstep : Parallels bond step step') :
    Parallels bond (inScope inner step) (inScope inner step') := by
  intro first second h
  obtain ⟨hvalue, hstates⟩ := hstep (bond.changeScope inner h)
  refine ⟨hvalue, ?_⟩
  show bond.related (Analysis.changeScope (fun _ => first.scope) _)
    (Analysis.changeScope (fun _ => second.scope) _)
  rw [bond.scope h]
  exact bond.changeScope _ hstates

end Parallels

theorem record_parallels (type : ValueType) : Parallels bond (record id type) (record id type) :=
  .bind (.modify (bond.changeFacts _)) fun _ => .pure _

theorem resolved_parallels (name : String) :
    Parallels bond (resolved id kind name) (resolved id kind name) :=
  .modify (bond.changeFacts _)

theorem refer_parallels (function owner : String) :
    Parallels bond (refer function owner) (refer function owner) :=
  .modify (bond.changeFacts _)

theorem undefined_parallels (name : String) :
    Parallels bond (undefined info name) (undefined info.unplace name) :=
  .bind (.modify (bond.error _ _ _ _)) fun _ => .pure _

theorem mismatch_parallels :
    Parallels bond (mismatch message location) (mismatch message .nowhere) :=
  .modify (bond.warning _ _ _ _)

theorem wordArgument_parallels (name : String) :
    Parallels bond (wordArgument info kind name) (wordArgument info.unplace kind name) :=
  .bind (resolved_parallels _ _ _) fun _ => record_parallels _ _

theorem resolveTo_parallels (use : Use) (id : Nat) (kind : Referent) (name : String)
    {next next' : Analyzer β} (hnext : Parallels bond next next') :
    Parallels bond (modify (Analysis.use use) >>= fun _ => resolved id kind name >>= fun _ => next)
      (modify (Analysis.use use) >>= fun _ => resolved id kind name >>= fun _ => next') :=
  .bind (.modify (bond.use use)) fun _ =>
    .bind (resolved_parallels _ _ _) fun _ => hnext

theorem resolveGlobal_parallels (name : String) :
    Parallels bond (resolveGlobal owner info name) (resolveGlobal owner info.unplace name) := by
  refine .get fun {first second} h => ?_
  have hsignature := bond.signature h
  obtain ⟨hnone, hnone'⟩ | ⟨entry, entry', hsome, hsome', htype⟩ :=
    Table.get?_of_mapValues_eq (congrArg Signature.constants hsignature) name
  · obtain ⟨hvariable, hvariable'⟩ | ⟨entry, entry', hsome, hsome', htype⟩ :=
      Table.get?_of_mapValues_eq (congrArg Signature.dataVars hsignature) name
    · obtain ⟨hfunction, hfunction'⟩ | ⟨entry, entry', hsome, hsome', htype⟩ :=
        Table.get?_of_mapValues_eq (congrArg Signature.functions hsignature) name
      · simp only [hnone, hnone', hvariable, hvariable', hfunction, hfunction']
        exact Parallels.branch (.bind (resolved_parallels _ _ _) fun _ => .pure _)
          (.branch (.bind (resolved_parallels _ _ _) fun _ => .pure _)
            (undefined_parallels info name)) h
      · simp only [hnone, hnone', hvariable, hvariable', hsome, hsome', htype]
        exact Parallels.bind (refer_parallels name owner) (fun _ =>
          .bind (resolved_parallels _ _ _) fun _ => .pure _) h
    · simp only [hnone, hnone', hsome, hsome', htype]
      exact resolveTo_parallels (.variable name .read) _ _ _ (.pure _) h
  · simp only [hsome, hsome', htype]
    exact resolveTo_parallels (.constant name) _ _ _ (.pure _) h

theorem resolve_parallels (name : String) :
    Parallels bond (resolve owner info name) (resolve owner info.unplace name) := by
  refine .branch (.pure _) (.get fun {first second} h => ?_)
  rw [bond.scope h]
  cases second.scope.lookup? name with
  | some type => exact Parallels.bind (resolved_parallels _ _ _) (fun _ => .pure _) h
  | none => exact resolveGlobal_parallels owner info name h

theorem mapTarget_parallels (name : String) (access : Access) :
    Parallels bond (mapTarget info name access) (mapTarget info.unplace name access) := by
  refine .branch (.pure _) (.get fun {first second} h => ?_)
  rw [Table.contains_of_mapValues_eq (congrArg Signature.maps (bond.signature h)) name]
  exact Parallels.branch (resolveTo_parallels (.map name access) _ _ _ (record_parallels _ _))
    (undefined_parallels info name) h

theorem variableTarget_parallels (name : String) (access : Access) :
    Parallels bond (variableTarget info name access) (variableTarget info.unplace name access) := by
  refine .branch (.pure _) (.get fun {first second} h => ?_)
  obtain ⟨hnone, hnone'⟩ | ⟨entry, entry', hsome, hsome', htype⟩ :=
    Table.get?_of_mapValues_eq (congrArg Signature.dataVars (bond.signature h)) name
  · simp only [hnone, hnone']
    exact undefined_parallels info name h
  · simp only [hsome, hsome', htype]
    exact resolveTo_parallels (.variable name access) _ _ _ (record_parallels _ _) h

theorem tokenTarget_parallels (name : String) :
    Parallels bond (tokenTarget info name) (tokenTarget info.unplace name) := by
  refine .branch (.pure _) (.get fun {first second} h => ?_)
  rw [Table.contains_of_mapValues_eq (congrArg Signature.tokens (bond.signature h)) name]
  exact Parallels.branch (resolveTo_parallels (.token name) _ _ _ (record_parallels _ _))
    (undefined_parallels info name) h

theorem remoteFunction_parallels : Parallels bond (specialArgument.remoteFunction callee args)
      (specialArgument.remoteFunction callee (args.map Expr.unplace)) := by
  unfold specialArgument.remoteFunction
  by_cases hcallee : callee = "contract-call?"
  · subst hcallee
    rcases args with _ | ⟨first, _ | ⟨second, rest⟩⟩
    · exact .pure _
    · exact .pure _
    · cases second with
      | identifier info name => exact .bind (wordArgument_parallels info _ _) fun _ => .pure _
      | conditional info condition yes no => cases no <;> exact .pure _
      | _ => exact .pure _
  · split
    · exact absurd rfl hcallee
    · split
      · exact absurd rfl hcallee
      · exact .pure _

theorem specialArgument_parallels : Parallels bond (specialArgument callee args)
      (specialArgument callee (args.map Expr.unplace)) := by
  have hremote : Parallels bond _ _ := remoteFunction_parallels callee args
  cases args with
  | nil => exact hremote
  | cons arg rest =>
      cases arg with
      | identifier info name =>
          exact .branch (.bind (mapTarget_parallels _ _ _) fun _ => .pure _)
            (.branch (.bind (variableTarget_parallels _ _ _) fun _ => .pure _)
              (.branch (.bind (tokenTarget_parallels _ _) fun _ => .pure _)
                (.branch (.bind (wordArgument_parallels _ _ _) fun _ => .pure _)
                  (.branch (.bind (wordArgument_parallels _ _ _) fun _ => .pure _) hremote))))
      | conditional info condition yes no => cases no <;> exact hremote
      | _ => exact hremote

theorem recordCall_parallels (callee : String) (args : List Expr) (types : List ValueType) :
    Parallels bond (recordCall owner info callee args types)
      (recordCall owner info.unplace callee (args.map Expr.unplace) types) := by
  refine .get fun {first second} h => ?_
  have hsignature := bond.signature h
  have hrecord (type : ValueType) : Parallels bond (do
      modify (Analysis.changeFacts (·.recordCall info.id (.ofCall callee args)))
      record info.id type) (do
      modify (Analysis.changeFacts (·.recordCall info.id (.ofCall callee args)))
      record info.id type) :=
    .bind (.modify (bond.changeFacts _)) fun _ => record_parallels _ _
  have hunknown := Parallels.modify fun {_ _} => bond.unknown callee info.span.start .nowhere
  dsimp only
  rw [Table.contains_of_mapValues_eq (congrArg Signature.functions hsignature) callee,
    callType_congr hsignature, CallInfo.ofCall_unplace]
  exact Parallels.branch (.bind (refer_parallels callee owner) fun _ => hrecord _)
    (.branch (.bind hunknown fun _ => hrecord _) (hrecord _)) h

/-! ## Visits -/

open ContractAudit.Expr

theorem Parallels.warned [Decidable p] {next next' : Unit → Analyzer β}
    (hnext : Parallels bond (next ()) (next' ())) :
    Parallels bond (if p then mismatch message location >>= next else next ())
      (if p then mismatch message .nowhere >>= next' else next' ()) :=
  .branch (.bind (mismatch_parallels message location) fun _ => hnext) hnext

mutual

theorem visit_parallels (owner : String) : (expr : Expr) →
    Parallels bond (visit owner expr) (visit owner expr.unplace)
  | .literal info value => record_parallels info.id _
  | .identifier info name => by
      exact .bind (resolve_parallels owner info name) fun _ => record_parallels _ _
  | .call info callee args => by
      rw [unplace, visit, visit, unplaceList_eq]
      refine .bind (specialArgument_parallels callee args) fun special => ?_
      refine .bind ?_ fun types => recordCall_parallels owner info callee args types
      rw [← unplaceList_eq]
      exact visitArgs_parallels owner special 0 args
  | .letIn info bindings body => by
      exact .bind (.inScope _ (.bind (visitBindings_parallels owner bindings) fun _ =>
        visitBody_parallels owner .uint body)) fun _ => record_parallels _ _
  | .block info body => by
      exact .bind (visitBody_parallels owner .uint body) fun _ => record_parallels _ _
  | .conditional info condition yes none => by
      rw [unplace, visit, visit, location_unplace]
      exact .bind (visit_parallels owner condition) fun _ => .warned _ _
        (.bind (visit_parallels owner yes) fun _ => record_parallels _ _)
  | .conditional info condition yes (some no) => by
      rw [unplace, visit, visit, location_unplace]
      refine .bind (visit_parallels owner condition) fun _ => .warned _ _ ?_
      exact .bind (visit_parallels owner yes) fun _ => .bind (visit_parallels owner no) fun _ =>
        .warned _ _ (record_parallels _ _)
  | .matchOn info subject arms => by
      exact .bind (visit_parallels owner subject) fun type =>
        .bind (visitArms_parallels owner type 0 arms) fun _ => record_parallels _ _
  | .list info elements => by
      refine .bind (visitElements_parallels owner none elements) fun _ => ?_
      rw [unplaceList_eq, List.length_map]
      exact record_parallels _ _
  | .tuple info fields => by
      exact .bind (visitFields_parallels owner fields) fun _ => record_parallels _ _

theorem visitArgs_parallels (owner : String) (special : Option (Nat × ValueType)) (index : Nat) :
    (args : List Expr) →
    Parallels bond (visitArgs owner special index args)
      (visitArgs owner special index (unplaceList args))
  | [] => .pure _
  | arg :: rest => by
      have hrest (type : ValueType) : Parallels bond (do
          let others ← visitArgs owner special (index + 1) rest
          pure (type :: others)) (do
          let others ← visitArgs owner special (index + 1) (unplaceList rest)
          pure (type :: others)) :=
        .bind (visitArgs_parallels owner special (index + 1) rest) fun _ => .pure _
      cases special with
      | none => exact .bind (visit_parallels owner arg) hrest
      | some found =>
          exact .branch (.bind (.pure _) hrest) (.bind (visit_parallels owner arg) hrest)

theorem visitBindings_parallels (owner : String) : (bindings : List (Named Expr)) →
    Parallels bond (visitBindings owner bindings) (visitBindings owner (unplaceNamed bindings))
  | [] => .pure _
  | ⟨info, name, value⟩ :: rest => by
      exact .bind (visit_parallels owner value) fun _ => .bind (record_parallels _ _) fun _ =>
        .bind (.modify (bond.changeScope _)) fun _ => visitBindings_parallels owner rest

theorem visitBody_parallels (owner : String) (type : ValueType) : (body : List Expr) →
    Parallels bond (visitBody owner type body) (visitBody owner type (unplaceList body))
  | [] => .pure _
  | expr :: rest => by
      exact .bind (visit_parallels owner expr) fun type => visitBody_parallels owner type rest

theorem visitArms_parallels (owner : String) (subject : ValueType) (index : Nat) :
    (arms : List (Arm Expr)) →
    Parallels bond (visitArms owner subject index arms)
      (visitArms owner subject index (unplaceArms arms))
  | [] => .pure _
  | ⟨_, pattern, body⟩ :: rest => by
      have hempty : (unplaceList body).isEmpty = body.isEmpty := by cases body <;> rfl
      rw [unplaceArms, visitArms, visitArms, armScope_unplace, hempty]
      exact .bind (.inScope _ (visitBody_parallels owner .uint body)) fun _ =>
        .bind (visitArms_parallels owner subject (index + 1) rest) fun _ => .pure _

theorem visitElements_parallels (owner : String) (first : Option ValueType) :
    (elements : List Expr) →
    Parallels bond (visitElements owner first elements)
      (visitElements owner first (unplaceList elements))
  | [] => .pure _
  | expr :: rest => by
      rw [unplaceList, visitElements, visitElements, location_unplace]
      refine .bind (visit_parallels owner expr) fun type => ?_
      cases first with
      | none => exact visitElements_parallels owner (some type) rest
      | some element => exact .warned _ _ (visitElements_parallels owner (some element) rest)

theorem visitFields_parallels (owner : String) : (fields : List (Named Expr)) →
    Parallels bond (visitFields owner fields) (visitFields owner (unplaceNamed fields))
  | [] => .pure _
  | ⟨info, name, value⟩ :: rest => by
      exact .bind (visit_parallels owner value) fun _ => .bind (record_parallels _ _) fun _ =>
        .bind (visitFields_parallels owner rest) fun _ => .pure _

end

end Analyzer

end ContractAudit
