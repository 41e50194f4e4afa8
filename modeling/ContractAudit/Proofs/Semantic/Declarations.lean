import ContractAudit.Proofs.Table
import ContractAudit.Semantic.Environment

/-!
# Declared tables

Each table of an environment holds the definitions of its kind, of which the first of each name
counts. A `DeclaredTable` is a table of the environment together with the entry that a form makes in
it, so what holds of all six tables is said once.
-/

namespace ContractAudit

open List Parse

variable {forms : List Form}

/-- The tables of an environment. -/
inductive Namespace where
  | functions
  | constants
  | dataVars
  | maps
  | traits
  | tokens
deriving DecidableEq, Repr

def Form.definition? : Form → Option (Namespace × String)
  | .function definition => some (.functions, definition.name)
  | .constant _ name _ => some (.constants, name)
  | .dataVar _ name _ _ => some (.dataVars, name)
  | .map _ name _ _ => some (.maps, name)
  | .trait _ name _ => some (.traits, name)
  | .useTrait _ name _ => some (.traits, name)
  | .fungible _ name _ => some (.tokens, name)
  | .nonFungible _ name _ => some (.tokens, name)
  | .implTrait _ _ => none

/-- The definitions of some forms by table and name, in order. A definition whose name could not be
read is not among them. -/
def definitions (forms : List Form) : List (Namespace × String) :=
  (forms.filterMap Form.definition?).filter fun definition => definition.2 ≠ placeholder

theorem definitions_cons (form : Form) (rest : List Form) :
    definitions (form :: rest) = definitions [form] ++ definitions rest := by
  rw [definitions, ← singleton_append, filterMap_append, filter_append]
  rfl

theorem mem_definitions_singleton {form : Form} {definition : Namespace × String} :
    definition ∈ definitions [form] ↔
      form.definition? = some definition ∧ definition.2 ≠ placeholder := by
  simp [definitions, mem_filter]

def Environment.holds (environment : Environment) : Namespace × String → Bool
  | (.functions, name) => environment.functions.contains name
  | (.constants, name) => environment.constants.contains name
  | (.dataVars, name) => environment.dataVars.contains name
  | (.maps, name) => environment.maps.contains name
  | (.traits, name) => environment.traits.contains name
  | (.tokens, name) => environment.tokens.contains name

/-- A table of the environment with the entries that forms make in it. -/
structure DeclaredTable (α : Type) where
  space : Namespace
  table : Environment → Table String α
  made? : Form → Option (String × α)
  table_empty : table .empty = .empty
  table_declare : ∀ environment form, table (environment.declare form).1 =
    match made? form with
    | some (name, entry) => Environment.declareIn (table environment) name entry
    | none => table environment
  definition_entry : ∀ form, (made? form).map (fun entry => (space, entry.1)) =
    form.definition?.filter fun definition => definition.1 = space

namespace DeclaredTable

def functions : DeclaredTable FunctionEntry where
  space := .functions
  table := Environment.functions
  made?
    | .function f =>
        some (f.name, ⟨f.visibility,
          f.params.map fun param => (param.name, param.type.toValueType), f.info.span, .uint⟩)
    | _ => none
  table_empty := rfl
  table_declare environment form := by cases form <;> rfl
  definition_entry form := by cases form <;> rfl

def constants : DeclaredTable ConstantEntry where
  space := .constants
  table := Environment.constants
  made?
    | .constant info name value => some (name, ⟨Environment.declaredType value, info.span, false⟩)
    | _ => none
  table_empty := rfl
  table_declare environment form := by cases form <;> rfl
  definition_entry form := by cases form <;> rfl

def dataVars : DeclaredTable VariableEntry where
  space := .dataVars
  table := Environment.dataVars
  made?
    | .dataVar info name type _ => some (name, ⟨type.toValueType, info.span, false, false⟩)
    | _ => none
  table_empty := rfl
  table_declare environment form := by cases form <;> rfl
  definition_entry form := by cases form <;> rfl

def maps : DeclaredTable MapEntry where
  space := .maps
  table := Environment.maps
  made?
    | .map info name keyType valueType =>
        some (name, ⟨keyType.toValueType, valueType.toValueType, info.span, false, false⟩)
    | _ => none
  table_empty := rfl
  table_declare environment form := by cases form <;> rfl
  definition_entry form := by cases form <;> rfl

def traits : DeclaredTable TraitEntry where
  space := .traits
  table := Environment.traits
  made?
    | .trait info name functions =>
        some (name, ⟨functions.map TraitFunction.name, info.span, false⟩)
    | .useTrait info name _ => some (name, ⟨[], info.span, true⟩)
    | _ => none
  table_empty := rfl
  table_declare environment form := by cases form <;> rfl
  definition_entry form := by cases form <;> rfl

def tokens : DeclaredTable TokenEntry where
  space := .tokens
  table := Environment.tokens
  made?
    | .fungible info name _ => some (name, ⟨true, info.span, false, false⟩)
    | .nonFungible info name _ => some (name, ⟨false, info.span, false, false⟩)
    | _ => none
  table_empty := rfl
  table_declare environment form := by cases form <;> rfl
  definition_entry form := by cases form <;> rfl

variable {α : Type} (declared : DeclaredTable α)

def entries (forms : List Form) : List (String × α) :=
  (forms.filterMap declared.made?).filter fun entry => entry.1 ≠ placeholder

theorem declareIn_eq (table : Table String α) (name : String) (entry : α) :
    Environment.declareIn table name entry =
      if name = placeholder then table else table.insertNew name entry := by
  unfold Environment.declareIn Environment.isNew Table.insertNew
  by_cases hname : name = placeholder
  · simp [hname]
  · cases table.contains name <;> simp [hname]

theorem entries_cons (form : Form) (rest : List Form) :
    declared.entries (form :: rest) = declared.entries [form] ++ declared.entries rest := by
  rw [entries, ← singleton_append, filterMap_append, filter_append]
  rfl

theorem table_declare_eq_foldl (environment : Environment) (form : Form) :
    declared.table (environment.declare form).1 =
      (declared.entries [form]).foldl (fun table entry => table.insertNew entry.1 entry.2)
        (declared.table environment) := by
  rw [declared.table_declare, entries]
  cases hentry : declared.made? form with
  | none => simp [hentry]
  | some entry =>
      by_cases hname : entry.1 = placeholder <;> simp [hentry, declareIn_eq, hname]

theorem table_declareAll (environment : Environment) (forms : List Form) :
    declared.table (environment.declareAll forms).1 =
      (declared.entries forms).foldl (fun table entry => table.insertNew entry.1 entry.2)
        (declared.table environment) := by
  induction forms generalizing environment with
  | nil => rfl
  | cons form rest ih =>
      show declared.table ((environment.declare form).1.declareAll rest).1 = _
      rw [ih, table_declare_eq_foldl, declared.entries_cons form rest, foldl_append]

theorem table_declareAll_empty (forms : List Form) :
    declared.table (Environment.empty.declareAll forms).1 = .ofFirst (declared.entries forms) := by
  rw [table_declareAll, declared.table_empty]
  rfl

theorem map_entries_singleton (form : Form) :
    (declared.entries [form]).map (fun entry => (declared.space, entry.1)) =
      (definitions [form]).filter fun definition => definition.1 = declared.space := by
  have hentry := declared.definition_entry form
  unfold entries definitions
  cases hmade : declared.made? form with
  | none =>
      rw [hmade] at hentry
      cases hdefinition : form.definition? with
      | none => simp [hmade, hdefinition]
      | some definition =>
          -- The definition belongs to another table.
          rw [hdefinition] at hentry
          have hspace : definition.1 ≠ declared.space := by
            simpa [Option.filter, eq_comm] using hentry
          by_cases hname : definition.2 = placeholder <;>
            simp [hmade, hdefinition, hspace, hname]
  | some entry =>
      rw [hmade] at hentry
      obtain ⟨hdefinition, _⟩ := Option.filter_eq_some_iff.mp hentry.symm
      by_cases hname : entry.1 = placeholder <;> simp [hmade, hdefinition, hname]

theorem map_entries (forms : List Form) :
    (declared.entries forms).map (fun entry => (declared.space, entry.1)) =
      (definitions forms).filter fun definition => definition.1 = declared.space := by
  induction forms with
  | nil => rfl
  | cons form rest ih =>
      rw [entries_cons, definitions_cons, map_append, filter_append, map_entries_singleton, ih]

theorem entries_declareAll (h : (definitions forms).Nodup) :
    (declared.table (Environment.empty.declareAll forms).1).entries = declared.entries forms := by
  rw [table_declareAll_empty]
  refine Table.entries_ofFirst (List.Nodup.of_map (fun name => (declared.space, name)) ?_)
  rw [map_map]
  exact (declared.map_entries forms).symm ▸ h.filter _

theorem entries_perm {other : List Form} (h : forms.Perm other) :
    (declared.entries forms).Perm (declared.entries other) :=
  (h.filterMap _).filter _

end DeclaredTable

namespace Environment

theorem contains_declareIn {α : Type} (table : Table String α) (name other : String) (entry : α) :
    (declareIn table name entry).contains other =
      (table.contains other || (decide (name = other) && decide (other ≠ placeholder))) := by
  rw [Bool.eq_iff_iff, DeclaredTable.declareIn_eq]
  split
  · next hname =>
      grind
  · next hname =>
      rw [Table.contains_iff, Table.keys_insertNew_eq_addNew, mem_addNew]
      grind [Table.contains_iff]

theorem holds_declare (environment : Environment) (form : Form) (definition : Namespace × String) :
    (environment.declare form).1.holds definition = true ↔
      environment.holds definition = true ∨ definition ∈ definitions [form] := by
  rw [mem_definitions_singleton]
  obtain ⟨space, name⟩ := definition
  cases form <;> cases space <;>
    simp [declare, holds, Form.definition?, contains_declareIn]

theorem declare_eq_none_iff {environment : Environment} {form : Form} :
    (environment.declare form).2 = none ↔
      ∀ definition ∈ definitions [form], environment.holds definition ≠ true := by
  simp only [mem_definitions_singleton]
  cases form <;> simp [declare, holds, Form.definition?, duplicate?]

theorem errors_declareAll_iff {environment : Environment} : (environment.declareAll forms).2 = [] ↔
      (∀ definition ∈ definitions forms, environment.holds definition ≠ true) ∧
        (definitions forms).Nodup := by
  induction forms generalizing environment with
  | nil => simp [declareAll, definitions]
  | cons form rest ih =>
      have hsingle : (definitions [form]).Nodup := by
        refine List.Nodup.filter _ ?_
        cases hdefinition : form.definition? <;> simp [hdefinition]
      show (environment.declare form).2.toList ++ ((environment.declare form).1.declareAll rest).2 =
        [] ↔ _
      rw [append_eq_nil_iff, Option.toList_eq_nil_iff, declare_eq_none_iff, ih,
        definitions_cons form rest, nodup_append]
      simp only [ne_eq, holds_declare, not_or, mem_append]
      grind

theorem errors_declareAll_empty_iff :
    (empty.declareAll forms).2 = [] ↔ (definitions forms).Nodup := by
  rw [errors_declareAll_iff]
  refine and_iff_right fun definition _ => ?_
  obtain ⟨space, name⟩ := definition
  cases space <;> exact nofun

end Environment

end ContractAudit
