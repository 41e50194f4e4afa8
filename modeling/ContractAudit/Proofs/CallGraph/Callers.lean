import ContractAudit.Proofs.CallGraph.Search

/-!
# Calls and callers

The graph of a contract has a node for each function name, that of its first definition, and the
callers of a node are the nodes whose calls name it. So a step to a caller is a step along a call
taken backwards.
-/

namespace ContractAudit

open CallGraph Table List FunctionFacts

namespace CallGraph

variable {graph : CallGraph} {caller callee name other : String}

def CalledBy (graph : CallGraph) (callee caller : String) : Prop :=
  callee ∈ graph.keys ∧ caller ∈ graph.keys ∧ caller ∈ graph.callersOf callee

theorem mem_keys_of_listed {field : CallNode → List String}
    (h : other ∈ ((graph.get? name).map field).getD []) : name ∈ graph.keys := by
  by_contra hmissing
  rw [get?_eq_none_iff.mpr hmissing] at h
  cases h

theorem calls_iff :
    graph.Calls caller callee ↔ callee ∈ graph.callsOf caller ∧ callee ∈ graph.keys :=
  ⟨fun h => ⟨h.2.2, h.2.1⟩, fun h => ⟨mem_keys_of_listed h.1, h.2, h.1⟩⟩

theorem calledBy_iff :
    graph.CalledBy callee caller ↔ caller ∈ graph.callersOf callee ∧ caller ∈ graph.keys :=
  ⟨fun h => ⟨h.2.2, h.2.1⟩, fun h => ⟨mem_keys_of_listed h.1, h.2, h.1⟩⟩

/-! ## Adding the callers -/

def callersIn (graph : CallGraph) (name : String) : List String :=
  (graph.entries.filter fun entry => entry.2.calls.contains name).map Prod.fst

theorem nodup_callersIn : (graph.callersIn name).Nodup :=
  (filter_sublist.map Prod.fst).nodup graph.nodup

theorem foldl_addCaller (caller : String) (calls : List String) (graph : CallGraph) :
    calls.foldl (addCaller caller) graph = graph.mapValues fun name node =>
      if name ∈ calls then { node with calledBy := addNew node.calledBy caller } else node := by
  induction calls generalizing graph with
  | nil => simp [mapValues_id]
  | cons callee rest ih =>
      rw [foldl_cons, ih, addCaller, Table.modify, mapValues_mapValues]
      congr 1
      funext name node
      by_cases hname : name = callee <;> by_cases hrest : name ∈ rest <;>
        simp [hname, hrest, addNew_addNew]

/-- The loop over the functions adds to each function those that call it, in their order. -/
theorem foldl_callers (entries : List (String × CallNode)) (graph : CallGraph) :
    entries.foldl (fun result entry => entry.2.calls.foldl (addCaller entry.1) result) graph =
      graph.mapValues fun name node =>
        let callers := (entries.filter fun entry => entry.2.calls.contains name).map Prod.fst
        { node with calledBy := callers.foldl addNew node.calledBy } := by
  induction entries generalizing graph with
  | nil => simp [mapValues_id]
  | cons entry rest ih =>
      rw [foldl_cons, ih, foldl_addCaller, mapValues_mapValues]
      congr 1
      funext name node
      by_cases hname : name ∈ entry.2.calls <;> simp [hname]

@[simp]
theorem keys_withCallers (graph : CallGraph) : (withCallers graph).keys = graph.keys := by
  rw [withCallers, foldl_callers, keys_mapValues]

@[simp]
theorem callsOf_withCallers (graph : CallGraph) (name : String) :
    (withCallers graph).callsOf name = graph.callsOf name := by
  rw [callsOf, withCallers, foldl_callers, get?_mapValues, Option.map_map]
  rfl

theorem withCallers_eq (h : ∀ entry ∈ graph.entries, entry.2.calledBy = []) : withCallers graph =
      graph.mapValues fun name node => { node with calledBy := graph.callersIn name } := by
  refine (foldl_callers _ _).trans (mapValues_congr fun entry hentry => ?_)
  have hcallers : (graph.callersIn entry.1).foldl addNew [] = graph.callersIn entry.1 :=
    distinct_eq_self nodup_callersIn
  rw [h entry hentry]
  exact congrArg (fun callers => { entry.2 with calledBy := callers }) hcallers

theorem callersOf_withCallers (hbare : ∀ entry ∈ graph.entries, entry.2.calledBy = [])
    (h : name ∈ graph.keys) : (withCallers graph).callersOf name = graph.callersIn name := by
  have hsome : (graph.get? name).isSome = true := by
    rw [isSome_get?]
    exact contains_iff.mpr h
  obtain ⟨node, hnode⟩ := Option.isSome_iff_exists.mp hsome
  rw [callersOf, withCallers_eq hbare, get?_mapValues, hnode]
  rfl

theorem mem_callersIn :
    caller ∈ graph.callersIn callee ↔ callee ∈ graph.callsOf caller := by
  have hentry {node : CallNode} (hmem : (caller, node) ∈ graph.entries) :
      graph.callsOf caller = node.calls := by
    rw [callsOf, get?_eq_some_iff.mpr hmem]
    rfl
  simp only [callersIn, mem_map, mem_filter, contains_iff_mem]
  constructor
  · rintro ⟨⟨_, node⟩, ⟨hmem, hcalls⟩, rfl⟩
    rwa [hentry hmem]
  · intro hcalls
    obtain ⟨⟨_, node⟩, hmem, rfl⟩ := mem_map.mp (mem_keys_of_listed hcalls)
    rw [hentry hmem] at hcalls
    exact ⟨_, ⟨hmem, hcalls⟩, rfl⟩

end CallGraph

/-! ## The graph of a contract -/

def calleesNode (semantic : SemanticResult) (function : FunctionDef) : CallNode :=
  let known := semantic.factsOf? function
  { calls := (known.map callees).getD []
    calledBy := []
    isExternal := (known.map callsExternal).getD false
    modifiesState := (known.map modifiesState).getD false
    visibility := some function.visibility }

variable (semantic : SemanticResult)

theorem calleesGraph_eq_ofFirst :
    calleesGraph semantic = .ofFirst (semantic.contract.functions.map fun function =>
      (function.name, calleesNode semantic function)) := by
  rw [ofFirst, foldl_map]
  rfl

theorem keys_callGraph :
    (callGraph semantic).keys = distinct (semantic.contract.functions.map FunctionDef.name) := by
  rw [callGraph, keys_withCallers, calleesGraph_eq_ofFirst, keys_ofFirst,
    map_map]
  rfl

theorem calledBy_calleesGraph :
    ∀ entry ∈ (calleesGraph semantic).entries, entry.2.calledBy = [] := by
  intro entry hentry
  rw [calleesGraph_eq_ofFirst, mem_entries_ofFirst] at hentry
  obtain ⟨function, -, rfl⟩ := mem_map.mp (mem_of_find?_eq_some hentry)
  rfl

theorem callersOf_callGraph {name : String} (h : name ∈ (callGraph semantic).keys) :
    (callGraph semantic).callersOf name = (calleesGraph semantic).callersIn name := by
  rw [callGraph, keys_withCallers] at h
  exact callersOf_withCallers (calledBy_calleesGraph semantic) h

theorem mem_callersOf_callGraph {caller callee : String} (h : callee ∈ (callGraph semantic).keys) :
    caller ∈ (callGraph semantic).callersOf callee ↔ callee ∈
      (callGraph semantic).callsOf caller := by
  rw [callersOf_callGraph semantic h, mem_callersIn, callGraph, callsOf_withCallers]

theorem calledBy_callGraph {caller callee : String} :
    (callGraph semantic).CalledBy callee caller ↔ (callGraph semantic).Calls caller callee := by
  constructor
  · rintro ⟨hcallee, hcaller, hmem⟩
    exact ⟨hcaller, hcallee, (mem_callersOf_callGraph semantic hcallee).mp hmem⟩
  · rintro ⟨hcaller, hcallee, hmem⟩
    exact ⟨hcallee, hcaller, (mem_callersOf_callGraph semantic hcallee).mpr hmem⟩

end ContractAudit
