import ContractAudit.Proofs.DataFlow.Graph

/-!
# Storage of one name is one node

Variables, maps and constants are declared apart from each other, so a contract without errors can
give one name to several of them. The data-flow graph tells storage apart by name only: it keeps the
first kind of a name, and the one node has the uses of all of them.
-/

namespace ContractAudit

open StorageKind List Mention

variable {kind : StorageKind} {callee : String} (environment : Environment)

/-! ## Storage entities -/

namespace StorageKind

variable {access : Access}

def referent : StorageKind → Referent
  | .variable => .variable
  | .map => .map
  | .constant => .constant

def operations : StorageKind → Access → List String
  | .variable, .read => ["var-get"]
  | .variable, .write => ["var-set"]
  | .map, .read => ["map-get?"]
  | .map, .write => ["map-set", "map-insert", "map-delete"]
  | .constant, _ => []

theorem exists_mem_operations :
    (∃ kind : StorageKind, callee ∈ kind.operations access) ↔ callee ∈ access.operations := by
  constructor
  · rintro ⟨kind, hcallee⟩
    cases kind <;> cases access <;> simp_all [operations, Access.operations]
  · intro hcallee
    cases access <;>
      simp only [Access.operations, mem_cons, not_mem_nil, or_false] at hcallee <;>
      rcases hcallee with rfl | rfl | rfl | rfl
    all_goals first
      | exact ⟨.variable, by decide⟩
      | exact ⟨.map, by decide⟩

theorem nameArgument?_of_mem (h : callee ∈ kind.operations access) :
    nameArgument? callee = some (0, .storage kind.referent) := by
  cases kind <;> cases access <;>
    simp only [operations, mem_cons, not_mem_nil, or_false] at h <;>
    rcases h with rfl | rfl | rfl <;> rfl

end StorageKind

/-- The declared storage of an environment with its kinds: the data variables, then the maps, then
the constants, each in the order of declaration. -/
def Environment.entities (environment : Environment) : List (String × StorageKind) :=
  environment.dataVars.keys.map (·, .variable) ++ environment.maps.keys.map (·, .map) ++
    environment.constants.keys.map (·, .constant)

namespace Environment

theorem map_fst_entities : environment.entities.map Prod.fst =
      environment.dataVars.keys ++ environment.maps.keys ++ environment.constants.keys := by
  simp [entities, Function.comp_def]

theorem length_entities : environment.entities.length =
      environment.dataVars.size + environment.maps.size + environment.constants.size := by
  simp [entities, Nat.add_assoc]

theorem mem_entities {environment : Environment} {name : String} :
    (name, kind) ∈ environment.entities ↔ name ∈ environment.names kind.referent := by
  cases kind <;> simp [entities, referent, names]

end Environment

theorem DataFlow.storage_eq_ofFirst : storage environment = .ofFirst environment.entities := by
  simp [storage, Table.ofFirst, Environment.entities, foldl_map]

theorem Contract.mem_entities_iff {contract : Contract} {name : String}
    (hname : name ≠ Parse.placeholder) :
    (name, kind) ∈ (analyzeContract contract).environment.entities ↔
      contract.defines kind.referent name = true := by
  rw [Environment.mem_entities, names_analyzeContract, mem_distinct, mem_namesOf_iff,
    and_iff_left hname]

/-! ## Uses of an entity -/

/-- That a function uses the entity of a kind and a name: by a call at any depth of an operation of
the kind, or, to read it, by an identifier that refers to it. -/
def FunctionDef.Uses (f : FunctionDef) (contract : Contract) (kind : StorageKind) (access : Access)
    (name : String) : Prop :=
  (∃ info callee node rest, callee ∈ kind.operations access ∧
    CallWithin f.body info callee (.identifier node name :: rest)) ∨
  access = .read ∧ globalReferent? contract.defines name = some ⟨kind.referent, name⟩ ∧
    ∃ info bound, (Form.function f).Occurs info name bound ∧ name ∉ bound

def Contract.Uses (contract : Contract) (kind : StorageKind) (access : Access)
    (function name : String) : Prop :=
  ∃ f, .function f ∈ contract.body ∧ f.name = function ∧ f.Uses contract kind access name

theorem exists_globalReferent?_iff {defines : Referent → String → Bool} {name : String} :
    (∃ kind : StorageKind, defines kind.referent name = true ∧
      globalReferent? defines name = some ⟨kind.referent, name⟩) ↔
      defines .constant name = true ∨ defines .variable name = true := by
  constructor
  · rintro ⟨kind, hdefines, hrefers⟩
    match kind with
    | .variable => exact .inr hdefines
    | .constant => exact .inl hdefines
    | .map =>
        -- No identifier that stands as an expression refers to a map.
        unfold globalReferent? at hrefers
        split_ifs at hrefers <;> cases hrefers
  · intro hdefines
    by_cases hconstant : defines .constant name = true
    · exact ⟨.constant, hconstant, if_pos hconstant⟩
    · have hvariable := hdefines.resolve_left hconstant
      exact ⟨.variable, hvariable, by
        simp [globalReferent?, hconstant, hvariable, referent]⟩

section NoErrors

variable {contract : Contract} {f : FunctionDef} {name : String}

variable (herrors : (analyzeContract contract).errors = []) (hf : .function f ∈ contract.body)
  (hname : name ≠ Parse.placeholder)

include herrors hf hname

theorem defines_of_callWithin {info node : NodeInfo} {rest : List Expr}
    (hcallee : callee ∈ kind.operations access)
    (hcall : CallWithin f.body info callee (.identifier node name :: rest)) :
    contract.defines kind.referent name = true := by
  have htakes : ofCall? callee (.identifier node name :: rest) =
      some (0, ⟨node, name, .storage kind.referent⟩) := by
    simp [ofCall?, nameArgument?_of_mem hcallee]
  have hmention : ⟨node, name, .storage kind.referent⟩ ∈ contract.mentions :=
    DataFlow.mem_mentions_of_mem hf
      ((Expr.mem_mentionsList_iff_taken rfl).mpr ⟨info, callee, _, 0, hcall, htakes⟩)
  rw [(analyzeContract_met contract).2, append_eq_nil_iff, filterMap_eq_nil_iff]
    at herrors
  have hfound := herrors.2 _ hmention
  by_contra hundefined
  have hundeclared : contract.declared kind.referent name ≠ true :=
    fun hdeclared => hundefined (Contract.declared_iff.mp hdeclared).1
  simp [error?, resolution?, hname, hundeclared] at hfound

theorem exists_uses_iff :
    (∃ kind, contract.defines kind.referent name = true ∧ f.Uses contract kind access name) ↔
      f.Accesses access name ∨ access = .read ∧ f.Refers contract name := by
  constructor
  · rintro ⟨kind, hdefines, ⟨info, callee, node, rest, hcallee, hcall⟩ | ⟨rfl, hrefers, hoccurs⟩⟩
    · exact .inl
        ⟨info, callee, node, rest, exists_mem_operations.mp ⟨kind, hcallee⟩, hcall⟩
    · exact .inr ⟨rfl, exists_globalReferent?_iff.mp ⟨kind, hdefines, hrefers⟩, hoccurs⟩
  · rintro (⟨info, callee, node, rest, hcallee, hcall⟩ | ⟨rfl, hdefines, hoccurs⟩)
    · obtain ⟨kind, hcallee⟩ := exists_mem_operations.mpr hcallee
      exact ⟨kind, defines_of_callWithin herrors hf hname hcallee hcall,
        .inl ⟨info, callee, node, rest, hcallee, hcall⟩⟩
    · obtain ⟨kind, hdefines, hrefers⟩ := exists_globalReferent?_iff.mpr hdefines
      exact ⟨kind, hdefines, .inr ⟨rfl, hrefers, hoccurs⟩⟩

end NoErrors

theorem DataFlow.mem_usersOf_iff_uses {contract : Contract}
    (hnumbers : (contract.postorder.map (·.info.id)).Nodup)
    (herrors : (analyzeContract contract).errors = []) {name function : String} (hname : name ≠ "")
    (hplaceholder : name ≠ Parse.placeholder) :
    function ∈ usersOf (analyzeContract contract) name access ↔
      ∃ kind, (name, kind) ∈ (analyzeContract contract).environment.entities ∧
        contract.Uses kind access function name := by
  rw [mem_usersOf_analyzeContract_iff hnumbers hname hplaceholder]
  simp only [Contract.mem_entities_iff hplaceholder]
  constructor
  · rintro ⟨f, hf, hfunction, huse⟩
    obtain ⟨kind, hdefines, huses⟩ := (exists_uses_iff herrors hf hplaceholder).mpr huse
    exact ⟨kind, hdefines, f, hf, hfunction, huses⟩
  · rintro ⟨kind, hdefines, f, hf, hfunction, huses⟩
    exact ⟨f, hf, hfunction, (exists_uses_iff herrors hf hplaceholder).mp ⟨kind, hdefines, huses⟩⟩

/-- That a node of a data-flow graph stands for all storage of a name: it has the first kind of the
name and the uses of each. -/
structure DataNode.Joins (node : DataNode) (semantic : SemanticResult) (name : String) : Prop where
  kind : semantic.environment.entities.find? (fun entity => entity.1 = name) =
    some (name, node.kind)
  writers : ∀ function, function ∈ node.writers ↔
    ∃ kind, (name, kind) ∈ semantic.environment.entities ∧
      semantic.contract.Uses kind .write function name
  readers : ∀ function, function ∈ node.readers ↔
    ∃ kind, (name, kind) ∈ semantic.environment.entities ∧
      semantic.contract.Uses kind .read function name

/-- The data-flow graph of a text that is analysed without errors has one node for each name of a
data variable, map or constant, in this order. So it has a node for each of these entities exactly
if all their names are different. A node has the first kind of its name, its writers and readers are
the functions that write and read the entities of the name, and where a name is that of one entity
only they use that entity itself. -/
theorem dataFlowGraph_joins_equal_names {source : String} {result : ParseResult}
    (hparse : parse source = .ok result)
    (herrors : (analyzeContract result.contract).errors = []) :
    let semantic := analyzeContract result.contract
    let environment := semantic.environment
    (dataFlowGraph semantic).keys = distinct (environment.dataVars.keys ++ environment.maps.keys ++
          environment.constants.keys) ∧
      ((dataFlowGraph semantic).size =
          environment.dataVars.size + environment.maps.size + environment.constants.size ↔
        (environment.dataVars.keys ++ environment.maps.keys ++ environment.constants.keys).Nodup) ∧
      (∀ entry ∈ (dataFlowGraph semantic).entries, entry.2.Joins semantic entry.1) ∧
      ∀ entry ∈ (dataFlowGraph semantic).entries,
        (∀ kind, (entry.1, kind) ∈ environment.entities → kind = entry.2.kind) →
        ∀ function, (function ∈ entry.2.writers ↔
            result.contract.Uses entry.2.kind .write function entry.1) ∧
          (function ∈ entry.2.readers ↔
            result.contract.Uses entry.2.kind .read function entry.1) := by
  intro semantic environment
  have hkeys : (dataFlowGraph semantic).keys = distinct (environment.entities.map Prod.fst) := by
    rw [← Table.keys_ofFirst, ← DataFlow.storage_eq_ofFirst]
    rw [DataFlow.dataFlowGraph_eq, Table.keys_mapValues]
  have hjoins : ∀ entry ∈ (dataFlowGraph semantic).entries, entry.2.Joins semantic entry.1 := by
    intro entry hentry
    rw [DataFlow.dataFlowGraph_eq] at hentry
    obtain ⟨⟨name, kind⟩, hmem, rfl⟩ := List.mem_map.mp hentry
    rw [DataFlow.storage_eq_ofFirst, Table.mem_entries_ofFirst] at hmem
    have hentity := Environment.mem_entities.mp (List.mem_of_find?_eq_some hmem)
    rw [names_analyzeContract, mem_distinct] at hentity
    obtain ⟨hname, hplaceholder⟩ :=
      Contract.readable_of_mem_namesOf (named_of_parse hparse) hentity
    have husers (access : Access) (function : String) :
        function ∈ DataFlow.usersOf semantic name access ↔
          ∃ kind, (name, kind) ∈ environment.entities ∧
            result.contract.Uses kind access function name :=
      DataFlow.mem_usersOf_iff_uses (parseTokens_made hparse).1 herrors hname hplaceholder
    exact ⟨hmem, husers .write, husers .read⟩
  refine ⟨?_, ?_, hjoins, ?_⟩
  · rw [hkeys, Environment.map_fst_entities]
  · have hlength : (environment.entities.map Prod.fst).length = environment.entities.length :=
      List.length_map _
    rw [← Table.length_keys, hkeys, ← Environment.length_entities, ← hlength, length_distinct_iff,
      Environment.map_fst_entities]
  · intro entry hentry hown function
    obtain ⟨hkind, hwriters, hreaders⟩ := hjoins entry hentry
    have honly {access : Access} : (∃ kind, (entry.1, kind) ∈ environment.entities ∧
          result.contract.Uses kind access function entry.1) ↔
          result.contract.Uses entry.2.kind access function entry.1 := by
      constructor
      · rintro ⟨kind, hentity, huses⟩
        rwa [hown kind hentity] at huses
      · intro huses
        exact ⟨entry.2.kind, List.mem_of_find?_eq_some hkind, huses⟩
    exact ⟨(hwriters function).trans honly, (hreaders function).trans honly⟩

def sharedName : String :=
  "(define-data-var total uint u0) (define-map total uint uint) " ++
    "(define-public (one) (ok (map-set total u1 u1))) " ++
    "(define-public (two) (ok (map-set total u2 (var-get total))))"

theorem dataFlowGraph_joins_equal_names_sharedName :
    ∃ result, parse sharedName = .ok result ∧ (analyzeContract result.contract).errors = [] ∧
      ∃ node, (dataFlowGraph (analyzeContract result.contract)).entries = [("total", node)] ∧
        node.Joins (analyzeContract result.contract) "total" := by
  obtain ⟨result, hparse, herrors, hkeys⟩ : ∃ result, parse sharedName = .ok result ∧
      (analyzeContract result.contract).errors = [] ∧
      (dataFlowGraph (analyzeContract result.contract)).keys = ["total"] :=
    exists_parse (append_eq_ofList (append_eq_ofList rfl rfl) rfl) (by decide +kernel)
  obtain ⟨⟨name, node⟩, hentries, rfl⟩ := List.map_eq_singleton_iff.mp hkeys
  obtain ⟨_, _, hjoins, _⟩ := dataFlowGraph_joins_equal_names hparse herrors
  exact ⟨result, hparse, herrors, node, hentries,
    hjoins _ (by rw [hentries]; exact List.mem_singleton.mpr rfl)⟩

/-- A map is lost behind a data variable of its name, and its writers are listed as those of the
variable, which no function writes. -/
theorem dataFlowGraph_loses_map : ∃ result, parse sharedName = .ok result ∧ result.errors = [] ∧
      (analyzeContract result.contract).errors = [] ∧
      (analyzeContract result.contract).environment.dataVars.size = 1 ∧
      (analyzeContract result.contract).environment.maps.size = 1 ∧
      (dataFlowGraph (analyzeContract result.contract)).entries.map
          (fun entry => (entry.1, entry.2.kind, entry.2.writers)) =
        [("total", .variable, ["one", "two"])] ∧
      ∀ function name, ¬result.contract.Uses .variable .write function name := by
  obtain ⟨result, hparse, hread, herrors, hvariables, hmaps, hnodes, hcalls⟩ :
      ∃ result, parse sharedName = .ok result ∧ result.errors = [] ∧
        (analyzeContract result.contract).errors = [] ∧
        (analyzeContract result.contract).environment.dataVars.size = 1 ∧
        (analyzeContract result.contract).environment.maps.size = 1 ∧
        (dataFlowGraph (analyzeContract result.contract)).entries.map
            (fun entry => (entry.1, entry.2.kind, entry.2.writers)) =
          [("total", .variable, ["one", "two"])] ∧
        ∀ f ∈ result.contract.functions, ∀ site ∈ Expr.callsList f.body,
          site.info.name ≠ "var-set" :=
    exists_parse (append_eq_ofList (append_eq_ofList rfl rfl) rfl) (by decide +kernel)
  refine ⟨result, hparse, hread, herrors, hvariables, hmaps, hnodes, ?_⟩
  rintro function name ⟨f, hf, _, ⟨info, callee, node, rest, hcallee, hcall⟩ | ⟨⟨⟩, _⟩⟩
  exact hcalls f (Contract.mem_functions.mpr hf) _ (mem_callsList_iff.mpr hcall)
    (List.mem_singleton.mp hcallee)

end ContractAudit
