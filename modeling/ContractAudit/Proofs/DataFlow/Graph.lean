import ContractAudit.Proofs.DataFlow.Accesses
import ContractAudit.Proofs.Parse.FormNames

/-!
# Data-flow graphs are exact

The storage of a contract whose variables, maps and constants have different names is listed in the
order of declaration, kind by kind, and each entity has exactly the functions that write it, the
functions that read it and the other storage that its writers read.
-/

namespace ContractAudit

open List Function Parse

variable {access : Access} {other : String}

/-! ## Declared storage -/

/-- The storage that a contract declares, with its kinds: the data variables, then the maps, then
the constants, each in the order of declaration. -/
def Contract.storage (contract : Contract) : List (String × StorageKind) :=
  (contract.namesOf .variable).map (·, .variable) ++ (contract.namesOf .map).map (·, .map) ++
    (contract.namesOf .constant).map (·, .constant)

namespace DataFlow

theorem entries_foldl_add {kind : StorageKind} {names : List String}
    {table : Table String StorageKind} {known : List (String × StorageKind)}
    (htable : table.entries = known) (h : (known.map Prod.fst ++ names).Nodup) :
    (names.foldl (fun table name => table.insertNew name kind) table).entries =
      known ++ names.map (·, kind) := by
  rw [← htable] at h ⊢
  exact Table.entries_foldl_insertNew kind names table h

theorem entries_storage {contract : Contract} (h : (contract.storage.map Prod.fst).Nodup) :
    (storage (analyzeContract contract).environment).entries = contract.storage := by
  have hsplit : contract.storage.map Prod.fst =
      contract.namesOf .variable ++ contract.namesOf .map ++ contract.namesOf .constant := by
    simp [Contract.storage, comp_def]
  rw [hsplit] at h
  obtain ⟨hstate, hconstants, _⟩ := nodup_append.mp h
  obtain ⟨hvariables, hmaps, _⟩ := nodup_append.mp hstate
  have hnames {kind : Referent} (hkind : (contract.namesOf kind).Nodup) :
      (analyzeContract contract).environment.names kind = contract.namesOf kind := by
    rw [names_analyzeContract, distinct_eq_self hkind]
  have hstorage : storage (analyzeContract contract).environment =
      (contract.namesOf .constant).foldl (fun table name => table.insertNew name .constant)
        ((contract.namesOf .map).foldl (fun table name => table.insertNew name .map)
          ((contract.namesOf .variable).foldl (fun table name => table.insertNew name .variable)
            .empty)) := by
    rw [← hnames hvariables, ← hnames hmaps, ← hnames hconstants]
    rfl
  rw [hstorage, Contract.storage]
  refine entries_foldl_add (entries_foldl_add (entries_foldl_add rfl ?_) ?_) ?_
  · exact hvariables
  · simpa [comp_def] using hstate
  · simpa [comp_def] using h

/-! ## Runs of the loops -/

/-- The names of the functions with an access to storage, once for each access. -/
def users (facts : Facts) (functions : List FunctionDef) (name : String) (access : Access) :
    List String :=
  functions.flatMap fun f => ((accesses facts f).filter (· = (name, access))).map fun _ => f.name

/-- The names of a table that a list of accesses reads. -/
def readNames {α : Type} (table : Table String α) (found : List (String × Access)) : List String :=
  (found.filter fun access => access.2 = .read && table.contains access.1).map Prod.fst

/-- The node with the users of its name. -/
def addUsers (facts : Facts) (functions : List FunctionDef) (name : String) (node : DataNode) :
    DataNode :=
  { node with
    readers := (users facts functions name .read).foldl addNew node.readers
    writers := (users facts functions name .write).foldl addNew node.writers }

theorem foldl_addUser (f : FunctionDef) (facts : Facts) (name : String) (node : DataNode) :
    ((accesses facts f).filter (·.1 = name)).foldl
      (fun node access => node.addUser f.name access.2) node = addUsers facts [f] name node := by
  simp only [addUsers, users, flatMap_singleton]
  induction accesses facts f generalizing node with
  | nil => rfl
  | cons access rest ih =>
      obtain ⟨other, access⟩ := access
      by_cases hname : other = name
      · rw [filter_cons_of_pos (by simpa using hname), foldl_cons, ih]
        cases access <;> simp [DataNode.addUser, hname]
      · rw [filter_cons_of_neg (by simpa using hname), ih]
        simp [hname]

namespace Draft

variable (facts : Facts) (draft : Draft)

/-- What one access changes: the node of its name, and what the function reads. -/
theorem use_eq (function : String) (found : String × Access) : draft.use function found =
      ⟨draft.graph.modify found.1 (·.addUser function found.2),
        draft.reads.modify function ((readNames draft.graph [found]).foldl addNew ·)⟩ := by
  obtain ⟨name, access⟩ := found
  have hsame : draft.reads.modify function (fun known => known) = draft.reads := by
    simp only [Table.modify, ite_self, Table.mapValues_id]
  unfold use readNames
  cases hknown : draft.graph.contains name with
  | false =>
      have hmissing : name ∉ draft.graph.keys := fun hmem => by
        simp [Table.contains_iff.mpr hmem] at hknown
      simp [hknown, Table.modify_of_not_mem hmissing, hsame]
  | true => cases access <;> simp [hknown, hsame]

theorem foldl_use (function : String) (found : List (String × Access)) :
    found.foldl (use function) draft =
      ⟨draft.graph.mapValues fun name node => (found.filter (·.1 = name)).foldl
          (fun node access => node.addUser function access.2) node,
        draft.reads.modify function ((readNames draft.graph found).foldl addNew ·)⟩ := by
  induction found generalizing draft with
  | nil => simp [readNames, Table.modify, Table.mapValues_id]
  | cons access rest ih =>
      have hkeys : readNames (draft.graph.modify access.1 (·.addUser function access.2)) rest =
          readNames draft.graph rest := by
        simp only [readNames, Table.modify, Table.contains_mapValues]
      have hnames : readNames draft.graph (access :: rest) =
          readNames draft.graph [access] ++ readNames draft.graph rest := by
        rw [readNames, ← singleton_append, filter_append, map_append]
        rfl
      rw [foldl_cons, ih, use_eq, hkeys, hnames]
      simp only [Table.modify, Table.mapValues_mapValues]
      congr 2
      · funext name node
        by_cases hname : name = access.1
        · simp [hname]
        · simp [hname, Ne.symm hname]
      · funext other known
        split <;> simp

theorem graph_visit (f : FunctionDef) :
    (draft.visit facts f).graph = draft.graph.mapValues (addUsers facts [f]) := by
  rw [visit, foldl_use]
  simp only [foldl_addUser]

/-- What a function is known to read after a visit. -/
theorem reads_visit (f : FunctionDef) (function : String) :
    ((draft.visit facts f).reads.get? function).getD [] =
      (([f].filter (·.name = function)).flatMap fun f =>
        readNames draft.graph (accesses facts f)).foldl addNew
          ((draft.reads.get? function).getD []) := by
  rw [visit, foldl_use]
  simp only [Table.modify, Table.get?_mapValues]
  by_cases hname : f.name = function
  · subst hname
    by_cases hknown : f.name ∈ draft.reads.keys
    · have hsome := Table.isSome_get? draft.reads f.name
      rw [Table.contains_iff.mpr hknown] at hsome
      obtain ⟨known, hget⟩ := Option.isSome_iff_exists.mp hsome
      simp [Table.get?_insertNew_of_mem hknown, hget]
    · simp [Table.get?_insertNew_self hknown, Table.get?_eq_none_iff.mpr hknown]
  · have hkept : (draft.reads.insertNew f.name []).get? function = draft.reads.get? function := by
      unfold Table.insertNew
      split
      · rfl
      · exact Table.get?_insert_of_ne _ _ (Ne.symm hname)
    simp [hkept, hname, Ne.symm hname]

theorem graph_foldl_visit (functions : List FunctionDef) :
    (functions.foldl (visit facts) draft).graph =
      draft.graph.mapValues (addUsers facts functions) := by
  induction functions generalizing draft with
  | nil => exact (Table.mapValues_id _).symm
  | cons f rest ih =>
      rw [foldl_cons, ih, graph_visit, Table.mapValues_mapValues]
      congr 1
      funext name node
      simp [addUsers, users]

theorem reads_foldl_visit (functions : List FunctionDef) (function : String) :
    ((functions.foldl (visit facts) draft).reads.get? function).getD [] =
      ((functions.filter (·.name = function)).flatMap fun f =>
        readNames draft.graph (accesses facts f)).foldl addNew
          ((draft.reads.get? function).getD []) := by
  induction functions generalizing draft with
  | nil => rfl
  | cons f rest ih =>
      have hknown {found : List (String × Access)} :
          readNames (draft.visit facts f).graph found = readNames draft.graph found := by
        simp only [readNames, graph_visit, Table.contains_mapValues]
      rw [foldl_cons, ih]
      simp only [hknown]
      rw [reads_visit, ← foldl_append, ← flatMap_append, ← filter_append]
      rfl

end Draft

variable (semantic : SemanticResult)

def usersOf (name : String) (access : Access) : List String :=
  distinct (users semantic.facts semantic.contract.functions name access)

def readsOf (function : String) : List String :=
  distinct ((semantic.contract.functions.filter (·.name = function)).flatMap fun f =>
    readNames (storage semantic.environment) (accesses semantic.facts f))

/-- The other storage that the writers of a storage entity read. -/
def dependenciesOf (name : String) : List String :=
  distinct (((usersOf semantic name .write).flatMap (readsOf semantic)).filter (· ≠ name))

/-- The graph that the loops build: every entity with its users and with what its writers read. -/
theorem dataFlowGraph_eq : dataFlowGraph semantic =
      (storage semantic.environment).mapValues fun name kind =>
        ⟨kind, usersOf semantic name .read, usersOf semantic name .write,
          dependenciesOf semantic name⟩ := by
  have hreads {draft : Draft} (hdraft : draft = semantic.contract.functions.foldl
      (Draft.visit semantic.facts) ⟨(storage semantic.environment).mapValues fun _ kind =>
        ⟨kind, [], [], []⟩, .empty⟩) (function : String) :
      (draft.reads.get? function).getD [] = readsOf semantic function := by
    rw [hdraft, Draft.reads_foldl_visit]
    simp only [readNames, Table.contains_mapValues]
    rfl
  unfold dataFlowGraph
  simp only [Draft.graph_foldl_visit, Table.mapValues_mapValues]
  congr 1
  funext name kind
  rw [dependenciesOf, distinct, foldl_filter, foldl_flatMap]
  simp only [DataNode.addDependencies, hreads rfl, addUsers]
  simp [usersOf, distinct]

variable {semantic} {function name : String}

theorem mem_usersOf_iff : function ∈ usersOf semantic name access ↔
      ∃ f ∈ semantic.contract.functions, f.name = function ∧
        (name, access) ∈ accesses semantic.facts f := by
  simp only [usersOf, users, mem_distinct, mem_flatMap, mem_map, mem_filter, decide_eq_true_eq]
  constructor
  · rintro ⟨f, hf, _, ⟨huse, rfl⟩, hname⟩
    exact ⟨f, hf, hname, huse⟩
  · rintro ⟨f, hf, hname, huse⟩
    exact ⟨f, hf, _, ⟨huse, rfl⟩, hname⟩

theorem mem_readsOf_iff : other ∈ readsOf semantic function ↔
      other ∈ (storage semantic.environment).keys ∧ function ∈ usersOf semantic other .read := by
  simp only [readsOf, readNames, mem_distinct, mem_flatMap, mem_map, mem_filter, mem_usersOf_iff,
    ← Table.contains_iff, Bool.and_eq_true, decide_eq_true_eq]
  constructor
  · rintro ⟨f, ⟨hf, hname⟩, ⟨_, _⟩, ⟨huse, rfl, hcontains⟩, rfl⟩
    exact ⟨hcontains, f, hf, hname, huse⟩
  · rintro ⟨hcontains, f, hf, hname, huse⟩
    exact ⟨f, ⟨hf, hname⟩, _, ⟨huse, rfl, hcontains⟩, rfl⟩

theorem mem_dependenciesOf_iff : other ∈ dependenciesOf semantic name ↔
      other ≠ name ∧ other ∈ (storage semantic.environment).keys ∧
        ∃ writer ∈ usersOf semantic name .write, writer ∈ usersOf semantic other .read := by
  rw [dependenciesOf, mem_distinct, mem_filter, mem_flatMap, decide_eq_true_eq]
  constructor
  · rintro ⟨⟨writer, hwriter, hreads⟩, hne⟩
    obtain ⟨hkey, hreader⟩ := mem_readsOf_iff.mp hreads
    exact ⟨hne, hkey, writer, hwriter, hreader⟩
  · rintro ⟨hne, hkey, writer, hwriter, hreader⟩
    exact ⟨⟨writer, hwriter, mem_readsOf_iff.mpr ⟨hkey, hreader⟩⟩, hne⟩

end DataFlow

/-! ## Users of storage -/

namespace Contract

def Writes (contract : Contract) (function name : String) : Prop :=
  ∃ f, .function f ∈ contract.body ∧ f.name = function ∧ f.Accesses .write name

/-- That a function of a name reads the storage of a name: by a call, or by an identifier that
refers to it. -/
def Reads (contract : Contract) (function name : String) : Prop :=
  ∃ f, .function f ∈ contract.body ∧ f.name = function ∧
    (f.Accesses .read name ∨ f.Refers contract name)

variable {contract : Contract} (h : ∀ form ∈ contract.body, form.Named)

include h

theorem readable_of_mem_namesOf {kind : Referent} {name : String}
    (hname : name ∈ contract.namesOf kind) : name ≠ "" ∧ name ≠ placeholder := by
  obtain ⟨form, hform, hdeclares⟩ := mem_filterMap.mp hname
  obtain ⟨hdefines, hplaceholder⟩ := Form.declares?_eq_some.mp hdeclares
  exact ⟨h form hform kind name hdefines, hplaceholder⟩

theorem readable_of_mem_storage {name : String} (hname : name ∈ contract.storage.map Prod.fst) :
    name ≠ "" ∧ name ≠ placeholder := by
  simp only [storage, map_append, map_map, comp_def, map_id_fun',
    mem_append, id_eq] at hname
  rcases hname with (hname | hname) | hname <;> exact readable_of_mem_namesOf h hname

end Contract

namespace DataFlow

variable {contract : Contract} {name function : String}

theorem mem_accesses_iff (hnumbers : (contract.postorder.map (·.info.id)).Nodup) {f : FunctionDef}
    (hf : .function f ∈ contract.body) (hname : name ≠ "")
    (hplaceholder : name ≠ placeholder) :
    (name, access) ∈ accesses (analyzeContract contract).facts f ↔
      f.Accesses access name ∨ access = .read ∧ f.Refers contract name := by
  rw [accesses, mem_append, mem_callAccesses_iff hnumbers hf hname, mem_map]
  refine or_congr_right ?_
  rw [← mem_identifierReads_iff hnumbers hf hname hplaceholder]
  constructor
  · rintro ⟨_, hread, ⟨⟩⟩
    exact ⟨rfl, hread⟩
  · rintro ⟨rfl, hread⟩
    exact ⟨name, hread, rfl⟩

variable (hnumbers : (contract.postorder.map (·.info.id)).Nodup) (hname : name ≠ "")
  (hplaceholder : name ≠ placeholder)

include hnumbers hname hplaceholder

theorem mem_usersOf_analyzeContract_iff :
    function ∈ usersOf (analyzeContract contract) name access ↔
      ∃ f, .function f ∈ contract.body ∧ f.name = function ∧
        (f.Accesses access name ∨ access = .read ∧ f.Refers contract name) := by
  rw [mem_usersOf_iff]
  constructor
  · rintro ⟨f, hf, hfunction, huse⟩
    have hf := Contract.mem_functions.mp hf
    exact ⟨f, hf, hfunction, (mem_accesses_iff hnumbers hf hname hplaceholder).mp huse⟩
  · rintro ⟨f, hf, hfunction, huse⟩
    exact ⟨f, Contract.mem_functions.mpr hf, hfunction,
      (mem_accesses_iff hnumbers hf hname hplaceholder).mpr huse⟩

theorem mem_writers_iff : function ∈ usersOf (analyzeContract contract) name .write ↔
      contract.Writes function name := by
  rw [mem_usersOf_analyzeContract_iff hnumbers hname hplaceholder]
  simp [Contract.Writes]

theorem mem_readers_iff : function ∈ usersOf (analyzeContract contract) name .read ↔
      contract.Reads function name := by
  rw [mem_usersOf_analyzeContract_iff hnumbers hname hplaceholder]
  simp [Contract.Reads]

end DataFlow

/-- That a node of a data-flow graph lists the uses of a storage entity, and each once. -/
structure DataNode.Exact (node : DataNode) (contract : Contract) (name : String) : Prop where
  writers : ∀ function, function ∈ node.writers ↔ contract.Writes function name
  readers : ∀ function, function ∈ node.readers ↔ contract.Reads function name
  /-- The dependencies are the other storage that the writers read. -/
  dependencies : ∀ other, other ∈ node.dependencies ↔
    other ≠ name ∧ other ∈ contract.storage.map Prod.fst ∧
      ∃ writer ∈ node.writers, contract.Reads writer other
  writersOnce : node.writers.Nodup
  readersOnce : node.readers.Nodup
  dependenciesOnce : node.dependencies.Nodup

/-- The data-flow graph of a text is exact. If its data variables, maps and constants have
different names, the graph lists them kind by kind in the order of declaration. The writers of an
entity are the functions in which a call at any depth writes it, its readers are those in which a
call or an identifier at any depth reads it, and it depends on the other storage that its writers
read. -/
theorem dataFlowGraph_exact {source : String} {result : ParseResult}
    (hparse : parse source = .ok result)
    (hnames : (result.contract.storage.map Prod.fst).Nodup) :
    (dataFlowGraph (analyzeContract result.contract)).entries.map
        (fun entry => (entry.1, entry.2.kind)) = result.contract.storage ∧
      ∀ entry ∈ (dataFlowGraph (analyzeContract result.contract)).entries,
        entry.2.Exact result.contract entry.1 := by
  have hnumbers := (parseTokens_made hparse).1
  have hentries := DataFlow.entries_storage hnames
  have hkeys : (DataFlow.storage (analyzeContract result.contract).environment).keys =
      result.contract.storage.map Prod.fst := by rw [Table.keys, hentries]
  have hreadable {name : String} (h : name ∈ result.contract.storage.map Prod.fst) :=
    Contract.readable_of_mem_storage (named_of_parse hparse) h
  rw [DataFlow.dataFlowGraph_eq]
  constructor
  · rw [Table.mapValues, List.map_map, hentries]
    exact List.map_id _
  · intro entry hentry
    obtain ⟨⟨name, kind⟩, hmem, rfl⟩ := List.mem_map.mp hentry
    rw [hentries] at hmem
    obtain ⟨hname, hplaceholder⟩ := hreadable (List.mem_map_of_mem hmem)
    constructor
    · exact fun function => DataFlow.mem_writers_iff hnumbers hname hplaceholder
    · exact fun function => DataFlow.mem_readers_iff hnumbers hname hplaceholder
    · intro other
      refine DataFlow.mem_dependenciesOf_iff.trans (and_congr_right fun _ => ?_)
      rw [hkeys]
      refine and_congr_right fun hother => exists_congr fun writer => and_congr_right fun _ => ?_
      exact DataFlow.mem_readers_iff hnumbers (hreadable hother).1 (hreadable hother).2
    all_goals exact nodup_distinct _

def ledger : String :=
  "(define-constant fee u1) (define-map balances principal uint) " ++
    "(define-data-var total uint u0) (define-public (deposit (who principal)) " ++
    "(begin (map-set balances who (+ fee (var-get total))) (ok (var-set total fee)))) " ++
    "(define-read-only (balance (total principal)) (map-get? balances total))"

theorem dataFlowGraph_exact_ledger :
    ∃ result, parse ledger = .ok result ∧ (analyzeContract result.contract).errors = [] ∧
      (dataFlowGraph (analyzeContract result.contract)).entries.map
          (fun entry => (entry.1, entry.2.kind)) =
        [("total", .variable), ("balances", .map), ("fee", .constant)] ∧
      result.contract.Writes "deposit" "balances" ∧ result.contract.Reads "deposit" "fee" ∧
      ¬result.contract.Reads "balance" "total" := by
  obtain ⟨result, hparse, herrors, hstorage, hnodes⟩ : ∃ result, parse ledger = .ok result ∧
      (analyzeContract result.contract).errors = [] ∧
      result.contract.storage = [("total", .variable), ("balances", .map), ("fee", .constant)] ∧
      (dataFlowGraph (analyzeContract result.contract)).entries.map
          (fun entry => (entry.1, entry.2.writers, entry.2.readers)) =
        [("total", ["deposit"], ["deposit"]), ("balances", ["deposit"], ["balance"]),
          ("fee", [], ["deposit"])] :=
    exists_parse (append_eq_ofList (append_eq_ofList (append_eq_ofList rfl rfl) rfl) rfl)
      (by decide +kernel)
  obtain ⟨hentries, hexact⟩ := dataFlowGraph_exact hparse (by rw [hstorage]; decide)
  rw [hstorage] at hentries
  -- Each node of the graph is found with its lists of functions.
  have hnode {name : String} {writers readers : List String}
      (h : (name, writers, readers) ∈ (dataFlowGraph (analyzeContract result.contract)).entries.map
        fun entry => (entry.1, entry.2.writers, entry.2.readers)) :
      (∀ function, function ∈ writers ↔ result.contract.Writes function name) ∧
        ∀ function, function ∈ readers ↔ result.contract.Reads function name := by
    obtain ⟨entry, hentry, ⟨⟩⟩ := List.mem_map.mp h
    exact ⟨(hexact entry hentry).writers, (hexact entry hentry).readers⟩
  rw [hnodes] at hnode
  refine ⟨result, hparse, herrors, hentries, ?_, ?_, ?_⟩
  · exact ((hnode (.tail _ (.head _))).1 "deposit").mp (List.mem_singleton.mpr rfl)
  · exact ((hnode (.tail _ (.tail _ (.head _)))).2 "deposit").mp (List.mem_singleton.mpr rfl)
  · intro hreads
    exact absurd (((hnode (.head _)).2 "balance").mpr hreads) (by decide)

end ContractAudit
