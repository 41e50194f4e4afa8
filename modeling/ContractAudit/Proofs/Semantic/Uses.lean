import ContractAudit.Proofs.Semantic.Names
import ContractAudit.Proofs.Syntax.Walk

/-!
# Uses of declared names

A visit of an expression marks the declared names that the expression uses and records which
definitions refer to which functions. `Marked` says which uses have been noted between two states of
an analysis. The types that a visit infers are left out of account, so what is marked does not
depend on them.
-/

namespace ContractAudit

open Environment Table List Mention Builtin

open Facts (CallSite)

variable {declares : Referent → String → Bool} {owner : String} {mentions : List Mention}
  {sites : List CallSite}

/-! ## Uses -/

def Mention.isTaken (mention : Mention) : Bool :=
  match mention.role with
  | .expression _ => false
  | .storage _ | .word _ => true

theorem isTaken_of_ofCall? {callee : String} {args : List Expr} {position : Nat}
    {mention : Mention} (h : ofCall? callee args = some (position, mention)) :
    mention.isTaken = true := by
  unfold isTaken
  split
  · next bound hrole => exact absurd hrole (Expr.ofCall?_role h bound)
  all_goals rfl

/-- A use of a declared name. -/
inductive Use where
  | constant (name : String)
  | variable (name : String) (access : Access)
  | map (name : String) (access : Access)
  | token (name : String)
  | function (name owner : String)
deriving DecidableEq, Repr

namespace Use

def ofResolution? (owner : String) : Resolution → Option Use
  | ⟨.constant, name⟩ => some (.constant name)
  | ⟨.variable, name⟩ => some (.variable name .read)
  | ⟨.function, name⟩ => some (.function name owner)
  | _ => none

/-- The use of the storage that the first argument of a call names. -/
def ofCall? (callee : String) : List Expr → Option Use
  | .identifier _ name :: _ =>
      if name = Parse.placeholder then none
      else if callee ∈ mapOperations then
        some (.map name (if callee = "map-get?" then .read else .write))
      else if callee ∈ variableOperations then
        some (.variable name (if callee = "var-set" then .write else .read))
      else if callee ∈ tokenOperations then some (.token name)
      else none
  | _ => none

def target : Use → Resolution
  | .constant name => ⟨.constant, name⟩
  | .variable name _ => ⟨.variable, name⟩
  | .map name _ => ⟨.map, name⟩
  | .token name => ⟨.token, name⟩
  | .function name _ => ⟨.function, name⟩

end Use

/-- The use that a definition makes of a name by an identifier in it; a name that a call takes is
used by the call. -/
def Mention.use? (declares : Referent → String → Bool) (owner : String) (mention : Mention) :
    Option Use :=
  if mention.isTaken then none
  else (mention.resolution? declares).bind (Use.ofResolution? owner)

/-- The uses that a definition makes of names by a call in it: of the storage that the call takes,
and of the function that is called. -/
def Facts.CallSite.uses (declares : Referent → String → Bool) (owner : String) (site : CallSite) :
    List Use :=
  (Use.ofCall? site.info.name site.args).toList ++
    if declares .function site.info.name then [.function site.info.name owner] else []

/-- The uses that a definition makes of names by some identifiers and calls in it. -/
def usesOf (declares : Referent → String → Bool) (owner : String) (mentions : List Mention)
    (sites : List CallSite) : List Use :=
  mentions.filterMap (use? declares owner) ++ sites.flatMap (·.uses declares owner)

/-! ## Marked environments -/

def ConstantEntry.mark (uses : List Use) (name : String) (entry : ConstantEntry) : ConstantEntry :=
  { entry with used := entry.used || decide (.constant name ∈ uses) }

def VariableEntry.mark (uses : List Use) (name : String) (entry : VariableEntry) : VariableEntry :=
  { entry with
    accessed := entry.accessed || decide (.variable name .read ∈ uses)
    modified := entry.modified || decide (.variable name .write ∈ uses) }

def MapEntry.mark (uses : List Use) (name : String) (entry : MapEntry) : MapEntry :=
  { entry with
    accessed := entry.accessed || decide (.map name .read ∈ uses)
    modified := entry.modified || decide (.map name .write ∈ uses) }

def TokenEntry.mark (uses : List Use) (name : String) (entry : TokenEntry) : TokenEntry :=
  { entry with accessed := entry.accessed || decide (.token name ∈ uses) }

namespace Environment

def untyped (environment : Environment) : Environment :=
  { environment with
    functions := environment.functions.mapValues fun _ entry => { entry with returnType := .uint }
    constants := environment.constants.mapValues fun _ entry => { entry with type := .uint } }

def mark (uses : List Use) (environment : Environment) : Environment :=
  { environment with
    constants := environment.constants.mapValues (ConstantEntry.mark uses)
    dataVars := environment.dataVars.mapValues (VariableEntry.mark uses)
    maps := environment.maps.mapValues (MapEntry.mark uses)
    tokens := environment.tokens.mapValues (TokenEntry.mark uses) }

variable {first second : List Use}

@[simp]
theorem names_untyped (environment : Environment) :
    environment.untyped.names = environment.names := by
  funext kind
  cases kind <;> simp [names, untyped]

@[simp]
theorem names_mark (uses : List Use) (environment : Environment) :
    (environment.mark uses).names = environment.names := by
  funext kind
  cases kind <;> simp [names, mark]

theorem mark_append (first second : List Use) (environment : Environment) :
    (environment.mark first).mark second = environment.mark (first ++ second) := by
  have hconstant (name : String) (entry : ConstantEntry) :
      (entry.mark first name).mark second name = entry.mark (first ++ second) name := by
    simp [ConstantEntry.mark, Bool.or_assoc]
  have hvariable (name : String) (entry : VariableEntry) :
      (entry.mark first name).mark second name = entry.mark (first ++ second) name := by
    simp [VariableEntry.mark, Bool.or_assoc]
  have hmap (name : String) (entry : MapEntry) :
      (entry.mark first name).mark second name = entry.mark (first ++ second) name := by
    simp [MapEntry.mark, Bool.or_assoc]
  have htoken (name : String) (entry : TokenEntry) :
      (entry.mark first name).mark second name = entry.mark (first ++ second) name := by
    simp [TokenEntry.mark, Bool.or_assoc]
  simp only [mark, mapValues_mapValues, hconstant, hvariable, hmap, htoken]

theorem mark_congr (h : ∀ use, use ∈ first ↔ use ∈ second) (environment : Environment) :
    environment.mark first = environment.mark second := by
  have hconstant : ConstantEntry.mark first = ConstantEntry.mark second := by
    simp [ConstantEntry.mark, h, funext_iff]
  have hvariable : VariableEntry.mark first = VariableEntry.mark second := by
    simp [VariableEntry.mark, h, funext_iff]
  have hmap : MapEntry.mark first = MapEntry.mark second := by simp [MapEntry.mark, h, funext_iff]
  have htoken : TokenEntry.mark first = TokenEntry.mark second := by
    simp [TokenEntry.mark, h, funext_iff]
  rw [mark, hconstant, hvariable, hmap, htoken, mark]

theorem mapValues_eq_self {α : Type} {mark : String → α → α} (table : Table String α)
    (h : ∀ name entry, mark name entry = entry) : table.mapValues mark = table := by
  have hmark : mark = fun _ entry => entry := funext fun name => funext (h name)
  rw [hmark, mapValues_id]

variable (environment : Environment)

theorem mark_nil : environment.mark [] = environment := by
  simp [mark, mapValues_eq_self, ConstantEntry.mark, VariableEntry.mark, MapEntry.mark,
    TokenEntry.mark]

theorem mark_function (name owner : String) :
    environment.mark [.function name owner] = environment := by
  simp [mark, mapValues_eq_self, ConstantEntry.mark, VariableEntry.mark, MapEntry.mark,
    TokenEntry.mark]

end Environment

def Analysis.use (use : Use) (analysis : Analysis) : Analysis :=
  { analysis with
    environment :=
      match use with
      | .constant name => (analysis.useConstant name).environment
      | .variable name access => (analysis.useVariable name access).environment
      | .map name access => (analysis.useMap name access).environment
      | .token name => (analysis.useToken name).environment
      | .function _ _ => analysis.environment }

open Environment in
theorem Environment.untyped_use (use : Use) (analysis : Analysis) :
    (analysis.use use).environment.untyped = analysis.environment.untyped.mark [use] := by
  rcases use with name | ⟨name, access⟩ | ⟨name, access⟩ | name | ⟨name, owner⟩
  case function => exact (mark_function _ name owner).symm
  -- The tables of the other kinds stay as they are.
  all_goals
    simp only [Analysis.use, Analysis.useConstant, Analysis.useVariable, Analysis.useMap,
      Analysis.useToken, Analysis.changeEnvironment, untyped, mark, Table.modify,
      mapValues_mapValues, mk.injEq, true_and]
    refine ⟨?_, ?_, ?_, ?_⟩
    all_goals first
      | exact (mapValues_eq_self _ (by simp [VariableEntry.mark, MapEntry.mark,
        TokenEntry.mark])).symm
      | refine congrArg (mapValues · _) (funext fun other => funext fun entry => ?_)
        cases entry
        grind [ConstantEntry.mark, VariableEntry.mark, MapEntry.mark, TokenEntry.mark]

theorem Analysis.use_of_not_declares {use : Use} {analysis : Analysis}
    (h : analysis.environment.declares use.target.kind use.target.name = false) :
    analysis.use use = analysis := by
  rw [Bool.eq_false_iff, ne_eq, declares_iff] at h
  cases use
  case function => rfl
  all_goals
    simp only [Use.target, names] at h
    simp only [Analysis.use, useConstant, useVariable, useMap, useToken, changeEnvironment,
      modify_of_not_mem h]

/-! ## Noted uses -/

theorem mem_usesOf {use : Use} : use ∈ usesOf declares owner mentions sites ↔
      (∃ mention ∈ mentions, mention.use? declares owner = some use) ∨
        ∃ site ∈ sites, use ∈ site.uses declares owner := by
  simp [usesOf]

theorem mem_usesOf_append {others : List Mention} {more : List CallSite} {use : Use} :
    use ∈ usesOf declares owner (mentions ++ others) (sites ++ more) ↔
      use ∈ usesOf declares owner mentions sites ++ usesOf declares owner others more := by
  rw [mem_append, mem_usesOf, mem_usesOf, mem_usesOf]
  simp only [mem_append, or_and_right, exists_or]
  exact or_or_or_comm

/-- Between two states of an analysis some uses have been noted, and nothing else but types has
changed in the environment and in the references. No warnings have been given but about types. -/
structure Marked (uses : List Use) (before after : Analysis) : Prop where
  environment : after.environment.untyped = before.environment.untyped.mark uses
  referrers : ∀ function owner, owner ∈ after.facts.referrers function ↔
    owner ∈ before.facts.referrers function ∨ .function function owner ∈ uses
  referred : ∀ function, function ∈ after.facts.references.keys ↔
    function ∈ before.facts.references.keys ∨ ∃ owner, .function function owner ∈ uses
  warnings : ∃ mismatches : List Diagnostic, after.warnings = before.warnings ++ mismatches ∧
    ∀ warning ∈ mismatches, warning.code = .typeMismatch

namespace Marked

variable {before middle after : Analysis} {uses first second : List Use}

/-- What changes neither the environment nor the references notes nothing. -/
theorem quiet (henvironment : after.environment.untyped = before.environment.untyped)
    (hreferences : after.facts.references = before.facts.references)
    (hwarnings : after.warnings = before.warnings) : Marked [] before after where
  environment := by rw [henvironment, mark_nil]
  referrers function owner := by simp [Facts.referrers, hreferences]
  referred function := by simp [hreferences]
  warnings := ⟨[], by simp [hwarnings], by simp⟩

theorem of_warning {warning : Diagnostic} (henvironment : after.environment = before.environment)
    (hreferences : after.facts.references = before.facts.references)
    (hwarnings : after.warnings = before.warnings ++ [warning])
    (hcode : warning.code = .typeMismatch) : Marked [] before after where
  environment := by rw [henvironment, mark_nil]
  referrers function owner := by simp [Facts.referrers, hreferences]
  referred function := by simp [hreferences]
  warnings := ⟨[warning], hwarnings, by simpa using hcode⟩

theorem names (h : Marked uses before after) :
    after.environment.names = before.environment.names := by
  rw [← names_untyped, h.environment, names_mark, names_untyped]

theorem congr (h : Marked first before after) (hsame : ∀ use, use ∈ first ↔ use ∈ second) :
    Marked second before after where
  environment := by rw [h.environment, mark_congr hsame]
  referrers function owner := by rw [h.referrers, hsame]
  referred function := by simp only [h.referred, hsame]
  warnings := h.warnings

/-- Uses that are noted one after the other. -/
theorem append (hfirst : Marked first before middle) (hsecond : Marked second middle after) :
    Marked (first ++ second) before after where
  environment := by rw [hsecond.environment, hfirst.environment, mark_append]
  referrers function owner := by rw [hsecond.referrers, hfirst.referrers, mem_append, or_assoc]
  referred function := by
    simp only [hsecond.referred, hfirst.referred, mem_append, exists_or, or_assoc]
  warnings := by
    obtain ⟨earlier, hearlier, hcodes⟩ := hfirst.warnings
    obtain ⟨later, hlater, hcodes'⟩ := hsecond.warnings
    refine ⟨earlier ++ later, by rw [hlater, hearlier, append_assoc], fun warning hmem => ?_⟩
    exact (mem_append.mp hmem).elim (hcodes warning) (hcodes' warning)

theorem of_use {use : Use} (huse : ∀ function owner, use ≠ .function function owner)
    (henvironment : after.environment = (before.use use).environment)
    (hreferences : after.facts.references = before.facts.references)
    (hwarnings : after.warnings = before.warnings) : Marked [use] before after where
  environment := by rw [henvironment, untyped_use]
  referrers function owner := by simp [Facts.referrers, hreferences, (huse function owner).symm]
  referred function := by simp [hreferences, fun owner => (huse function owner).symm]
  warnings := ⟨[], by simp [hwarnings], by simp⟩

theorem of_refer {function : String} (henvironment : after.environment = before.environment)
    (hreferences : after.facts.references =
      before.facts.references.insert function (addNew (before.facts.referrers function) owner))
    (hwarnings : after.warnings = before.warnings) :
    Marked [.function function owner] before after where
  environment := by rw [henvironment, mark_function]
  referrers other referrer := by
    rw [Facts.referrers, hreferences]
    by_cases hother : other = function
    · subst hother
      rw [get?_insert_self, Option.getD_some, mem_addNew]
      simp
    · rw [get?_insert_of_ne _ _ hother]
      simp [Facts.referrers, hother]
  referred other := by
    rw [hreferences, mem_keys_insert]
    simp
  warnings := ⟨[], by simp [hwarnings], by simp⟩

end Marked

/-! ## Storage -/

namespace Analyzer

/-- How the name of storage is resolved that a call uses: the kinds of storage differ in the use
that is marked and in the type. -/
def storageTarget (use : Use) (info : NodeInfo) (type : Environment → ValueType) :
    Analyzer ValueType := do
  if use.target.name = Parse.placeholder then
    pure .uint
  else
    let environment := (← get).environment
    if environment.declares use.target.kind use.target.name then
      modify (Analysis.use use)
      resolved info.id use.target.kind use.target.name
      record info.id (type environment)
    else
      undefined info use.target.name

theorem get_bind_run {β : Type} (next : Analysis → Analyzer β) (analysis : Analysis) :
    (get >>= next) analysis = next analysis analysis := rfl

variable (info : NodeInfo) (name : String) (access : Access)

theorem mapTarget_eq :
    mapTarget info name access = storageTarget (.map name access) info fun _ => .uint := rfl

theorem tokenTarget_eq : tokenTarget info name = storageTarget (.token name) info fun _ => .uint :=
  rfl

theorem variableTarget_eq :
    variableTarget info name access = storageTarget (.variable name access) info fun environment =>
      ((environment.dataVars.get? name).map VariableEntry.type).getD .uint := by
  funext analysis
  by_cases hname : name = Parse.placeholder
  · simp [variableTarget, storageTarget, Use.target, hname]
  · rw [variableTarget, storageTarget, if_neg hname, if_neg (by exact hname), get_bind_run,
      get_bind_run]
    show _ = (if analysis.environment.dataVars.contains name = true then _ else _ : Analyzer _) _
    rw [← isSome_get?]
    cases analysis.environment.dataVars.get? name <;> rfl

end Analyzer

end ContractAudit
