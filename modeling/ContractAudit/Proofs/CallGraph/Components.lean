import ContractAudit.Proofs.CallGraph.Search

/-!
# The components found are the strongly connected ones

The search visits every function of the graph that it has not met. Between visits no function waits,
so that in the end every function is in a component.
-/

namespace ContractAudit.CallGraph

open List

variable {graph : CallGraph} {search : Search}

namespace Search

theorem inv_start (graph : CallGraph) : Inv graph [] start := by
  constructor <;> simp [start, met, Table.keys, Table.empty]

theorem Inv.waiting_eq_nil (h : Inv graph [] search) : search.waiting = [] := by
  refine eq_nil_iff_forall_not_mem.mpr fun y hy => ?_
  obtain ⟨x, hx, _⟩ := h.back y hy
  cases hx

theorem inv_visitNew (h : Inv graph [] search) {name : String} (hname : name ∈ graph.keys) :
    Inv graph [] (visitNew graph search name) ∧ search.met <+: (visitNew graph search name).met ∧
      name ∈ (visitNew graph search name).met := by
  unfold visitNew
  split
  · next hmet => exact ⟨h, prefix_refl _, Table.contains_iff.mp hmet⟩
  · next hmet =>
      have hready : Ready graph [] name search :=
        ⟨h, hname, fun hmem => hmet (Table.contains_iff.mpr hmem), by simp⟩
      -- No chain of nested visits is longer than the graph has functions.
      have hvisited := visitFrom_visited graph.size hready (by omega)
      exact ⟨hvisited.inv, hvisited.ext.met, hvisited.met⟩

/-- After functions of the graph, all of them have been met. -/
theorem inv_foldl_visitNew {names : List String} (hnames : ∀ name ∈ names, name ∈ graph.keys)
    (h : Inv graph [] search) :
    Inv graph [] (names.foldl (visitNew graph) search) ∧ ∀ name, name ∈ search.met ∨ name ∈ names →
        name ∈ (names.foldl (visitNew graph) search).met := by
  induction names generalizing search with
  | nil => exact ⟨h, fun name hname => by simpa using hname⟩
  | cons first rest ih =>
      obtain ⟨hinv, hkept, hfirst⟩ := inv_visitNew h (hnames first mem_cons_self)
      obtain ⟨hlast, hmet⟩ := ih (fun name hname => hnames name (mem_cons_of_mem _ hname)) hinv
      refine ⟨hlast, fun name hname => hmet name ?_⟩
      rcases hname with hname | hname
      · exact .inl (hkept.subset hname)
      · rcases mem_cons.mp hname with rfl | hname
        · exact .inl hfirst
        · exact .inr hname

end Search

/-- The components of a graph contain each of its functions exactly once and nothing else, and two
names are in one component exactly if they are functions of the graph that lead to each other. -/
theorem components_partition_by_reaches (graph : CallGraph) : graph.components.flatten.Nodup ∧
      (∀ name, name ∈ graph.components.flatten ↔ name ∈ graph.keys) ∧
      ∀ x y, (∃ component ∈ graph.components, x ∈ component ∧ y ∈ component) ↔
        x ∈ graph.keys ∧ y ∈ graph.keys ∧ graph.Reaches x y ∧ graph.Reaches y x := by
  obtain ⟨hinv, hmet⟩ := Search.inv_foldl_visitNew (fun _ h => h) (Search.inv_start graph)
  have hwaiting := hinv.waiting_eq_nil
  have hplaced := hinv.placed
  have hapart := hinv.apart
  rw [hwaiting, List.nil_append] at hapart
  have hmem : ∀ name, name ∈ graph.components.flatten ↔ name ∈ graph.keys := by
    intro name
    constructor
    · exact fun hname => hinv.known name ((hplaced name).mpr (.inr hname))
    · intro hname
      refine ((hplaced name).mp (hmet name (.inr hname))).resolve_left ?_
      rw [hwaiting]
      exact List.not_mem_nil
  refine ⟨hapart, hmem, fun x y => ?_⟩
  constructor
  · rintro ⟨component, hcomponent, hx, hy⟩
    obtain ⟨hxy, hyx⟩ := (hinv.connected component hcomponent x hx y).mp hy
    exact ⟨(hmem x).mp (List.mem_flatten_of_mem hcomponent hx),
      (hmem y).mp (List.mem_flatten_of_mem hcomponent hy), hxy, hyx⟩
  · rintro ⟨hx, _, hxy, hyx⟩
    obtain ⟨component, hcomponent, hxmem⟩ := List.mem_flatten.mp ((hmem x).mpr hx)
    exact ⟨component, hcomponent, hxmem,
      (hinv.connected component hcomponent x hxmem y).mpr ⟨hxy, hyx⟩⟩

end ContractAudit.CallGraph
