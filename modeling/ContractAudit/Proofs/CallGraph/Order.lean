import ContractAudit.Proofs.CallGraph.Components

/-!
# Callees come first

When a component is complete, whatever its functions call has been met, and nothing that still waits
is called. So a call leads into the component itself or into one found before, and components come
out callees first.
-/

namespace ContractAudit.CallGraph

variable {graph : CallGraph}

theorem inv_components (graph : CallGraph) :
    ∃ search, Search.Inv graph [] search ∧ search.components = graph.components ∧
      ∀ name ∈ graph.keys, name ∈ graph.components.flatten := by
  obtain ⟨hinv, hmet⟩ := Search.inv_foldl_visitNew (fun _ h => h) (Search.inv_start graph)
  refine ⟨_, hinv, rfl, fun name hname => ?_⟩
  refine ((hinv.placed name).mp (hmet name (.inr hname))).resolve_left ?_
  rw [hinv.waiting_eq_nil]
  exact List.not_mem_nil

theorem eq_of_mem_components (h : graph.components.flatten.Nodup) {name : String} {i j : Nat}
    (hi : i < graph.components.length) (hj : j < graph.components.length)
    (hmem : name ∈ graph.components[i]) (hmem' : name ∈ graph.components[j]) : i = j := by
  have hdisjoint := (List.nodup_flatten.mp h).2
  rw [List.pairwise_iff_getElem] at hdisjoint
  rcases Nat.lt_trichotomy i j with hlt | heq | hlt
  · exact absurd hmem' (hdisjoint i j hi hj hlt hmem)
  · exact heq
  · exact absurd hmem (hdisjoint j i hj hi hlt hmem')

/-- A function that calls one of another component has that component before its own: each of the
two functions is in exactly one component, and the callee's comes first in the list. -/
theorem components_callees_first (graph : CallGraph) {caller callee : String}
    (hcall : graph.Calls caller callee)
    (hapart : ¬(graph.Reaches caller callee ∧ graph.Reaches callee caller)) :
    ∃ earlier later : Fin graph.components.length, earlier < later ∧
      (∀ i, callee ∈ graph.components.get i ↔ i = earlier) ∧
      ∀ i, caller ∈ graph.components.get i ↔ i = later := by
  obtain ⟨search, hinv, hcomponents, hfound⟩ := inv_components graph
  have hnodup : graph.components.flatten.Nodup := by
    have hwhole := hinv.apart
    rw [hinv.waiting_eq_nil, List.nil_append, hcomponents] at hwhole
    exact hwhole
  -- The component of the caller, with those before it.
  obtain ⟨component, hcomponent, hcaller⟩ := List.mem_flatten.mp (hfound caller hcall.1)
  obtain ⟨later, hlater, rfl⟩ := List.getElem_of_mem hcomponent
  have hprefix : graph.components.take later ++ [graph.components[later]] <+:
      search.components := by
    rw [hcomponents, ← List.take_succ_eq_append_getElem hlater]
    exact List.take_prefix _ _
  have hnot : callee ∉ graph.components[later] := by
    intro hmem
    have hsearch : graph.components[later] ∈ search.components := by
      rw [hcomponents]
      exact hcomponent
    exact hapart ((hinv.connected _ hsearch caller hcaller callee).mp hmem)
  -- What it calls is in one of those.
  have hbefore := (hinv.callees_first _ _ hprefix caller hcaller callee hcall).resolve_left hnot
  obtain ⟨component', hcomponent', hcallee⟩ := List.mem_flatten.mp hbefore
  obtain ⟨earlier, hearlier, rfl⟩ := List.getElem_of_mem hcomponent'
  rw [List.length_take] at hearlier
  rw [List.getElem_take] at hcallee
  refine ⟨⟨earlier, by omega⟩, ⟨later, hlater⟩, Fin.mk_lt_mk.mpr (by omega), fun i =>
    ?_, fun i => ?_⟩
  · exact ⟨fun hmem => Fin.ext (eq_of_mem_components hnodup i.2 (by omega) hmem hcallee),
      fun heq => heq ▸ hcallee⟩
  · exact ⟨fun hmem => Fin.ext (eq_of_mem_components hnodup i.2 hlater hmem hcaller),
      fun heq => heq ▸ hcaller⟩

def mutualPair : CallGraph :=
  let node (calls : List String) : CallNode := ⟨calls, [], false, false, none⟩
  ⟨[("even", node ["odd", "missing"]), ("log", node ["log"]), ("odd", node ["log", "even", "log"])],
    by decide⟩

theorem mutualPair_callees_first : mutualPair.Calls "odd" "log" ∧ ¬mutualPair.Reaches "log" "odd" ∧
      ∃ earlier later : Fin mutualPair.components.length, earlier < later ∧
        (∀ i, "log" ∈ mutualPair.components.get i ↔ i = earlier) ∧
        ∀ i, "odd" ∈ mutualPair.components.get i ↔ i = later := by
  have hcall : mutualPair.Calls "odd" "log" := ⟨by decide, by decide, by decide⟩
  -- A call of the third function leads back to it.
  have hstays {name : String} (h : mutualPair.Reaches "log" name) : name = "log" := by
    induction h with
    | refl => rfl
    | tail _ hcall ih =>
        have hmem := hcall.2.2
        rw [ih] at hmem
        exact List.mem_singleton.mp hmem
  have hnever : ¬mutualPair.Reaches "log" "odd" := fun h => absurd (hstays h) (by decide)
  exact ⟨hcall, hnever, components_callees_first mutualPair hcall fun h => hnever h.2⟩

end ContractAudit.CallGraph
