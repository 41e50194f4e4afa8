import ContractAudit.Proofs.CallGraph.Order
import ContractAudit.Proofs.CallGraph.Reachability

/-!
# Recursive functions

A function is recursive if it can be reached from itself, which the query along a worklist tells for
one function and the search for components for all of them. A component with two functions holds
only recursive ones, and in a component with one function the way back can only be a call of itself.
-/

namespace ContractAudit.CallGraph

open Relation List

variable {graph : CallGraph} {component : List String} {name other : String}

theorem isRecursive_iff : graph.isRecursive name = true ↔ TransGen graph.Calls name name := by
  rw [isRecursive, contains_iff_mem, (answers_transitiveCallees graph name).mem_iff]

theorem nodup_flatten_components (graph : CallGraph) : graph.components.flatten.Nodup := by
  obtain ⟨search, hinv, hcomponents, _⟩ := inv_components graph
  rw [← hcomponents]
  exact (nodup_append.mp hinv.apart).2.1

theorem mem_component_iff (h : component ∈ graph.components) (hname : name ∈ component) :
    other ∈ component ↔ graph.Reaches name other ∧ graph.Reaches other name := by
  obtain ⟨search, hinv, hcomponents, _⟩ := inv_components graph
  rw [← hcomponents] at h
  exact hinv.connected component h name hname other

theorem nodup_component (h : component ∈ graph.components) : component.Nodup :=
  (nodup_flatten.mp (nodup_flatten_components graph)).1 component h

theorem transGen_of_reaches (hne : name ≠ other) (hthere : graph.Reaches name other)
    (hback : graph.Reaches other name) : TransGen graph.Calls name name := by
  rcases reflTransGen_iff_eq_or_transGen.mp hthere with heq | hthere
  · exact absurd heq.symm hne
  · exact hthere.trans_left hback

/-- A component is a recursive group exactly if its functions are recursive. -/
theorem mem_recursiveGroups_iff (h : component ∈ graph.components) (hname : name ∈ component) :
    component ∈ graph.recursiveGroups ↔ TransGen graph.Calls name name := by
  have hreaches {other : String} :
      other ∈ component ↔ graph.Reaches name other ∧ graph.Reaches other name :=
    mem_component_iff h hname
  rw [recursiveGroups, mem_filter, and_iff_right h]
  match component, hname with
  | [only], hname =>
      obtain rfl := mem_singleton.mp hname
      show (graph.callsOf name).contains name = true ↔ _
      rw [contains_iff_mem]
      constructor
      · intro hself
        have hknown := mem_keys_of_listed hself
        exact .single ⟨hknown, hknown, hself⟩
      · intro hloop
        -- The first function on the way back is in the component, so it is the function itself.
        obtain ⟨next, hcall, hback⟩ := TransGen.head'_iff.mp hloop
        obtain rfl := mem_singleton.mp (hreaches.mpr ⟨.single hcall, hback⟩)
        exact hcall.2.2
  | first :: second :: rest, hname =>
      refine iff_of_true rfl ?_
      have hapart : first ≠ second := fun heq =>
        (nodup_cons.mp (nodup_component h)).1 (heq ▸ mem_cons_self)
      obtain ⟨other, hother, hne⟩ : ∃ other ∈ first :: second :: rest, name ≠ other := by
        by_cases hfirst : name = first
        · exact ⟨second, by simp, hfirst ▸ hapart⟩
        · exact ⟨first, mem_cons_self, hfirst⟩
      obtain ⟨hthere, hback⟩ := hreaches.mp hother
      exact transGen_of_reaches hne hthere hback

theorem exists_component (h : name ∈ graph.keys) :
    ∃ component ∈ graph.components, name ∈ component := by
  obtain ⟨_, _, _, hfound⟩ := inv_components graph
  exact mem_flatten.mp (hfound name h)

/-- The two notions of recursion agree, on every graph. A function is in a recursive group if and
only if it can be reached from itself; the groups have no function twice and none in common; and
two functions are in one group if and only if each can be reached from the other and the first is
recursive. -/
theorem recursiveGroups_agree_with_isRecursive (graph : CallGraph) :
    (∀ name, (∃ group ∈ graph.recursiveGroups, name ∈ group) ↔ graph.isRecursive name = true) ∧
    (∀ name, graph.isRecursive name = true ↔ TransGen graph.Calls name name) ∧
    (∀ group ∈ graph.recursiveGroups, group.Nodup) ∧
    graph.recursiveGroups.Pairwise List.Disjoint ∧
    ∀ name other, (∃ group ∈ graph.recursiveGroups, name ∈ group ∧ other ∈ group) ↔
      graph.Reaches name other ∧ graph.Reaches other name ∧ graph.isRecursive name = true := by
  have hsublist : graph.recursiveGroups.Sublist graph.components := List.filter_sublist
  -- The component of a recursive function is a group.
  have hgroup {name : String} (hloop : TransGen graph.Calls name name) :
      ∃ group ∈ graph.recursiveGroups, name ∈ group := by
    obtain ⟨_, hcall, _⟩ := TransGen.head'_iff.mp hloop
    obtain ⟨component, hcomponent, hname⟩ := exists_component hcall.1
    exact ⟨component, (mem_recursiveGroups_iff hcomponent hname).mpr hloop, hname⟩
  have hloop {name : String} {group : List String} (hgroup : group ∈ graph.recursiveGroups)
      (hname : name ∈ group) : TransGen graph.Calls name name :=
    (mem_recursiveGroups_iff (hsublist.subset hgroup) hname).mp hgroup
  refine ⟨fun name => ?_, fun name => isRecursive_iff, ?_, ?_, fun name other => ?_⟩
  · rw [isRecursive_iff]
    exact ⟨fun ⟨_, hmem, hname⟩ => hloop hmem hname, hgroup⟩
  · exact fun group hmem => nodup_component (hsublist.subset hmem)
  · exact (List.nodup_flatten.mp (nodup_flatten_components graph)).2.sublist hsublist
  · rw [isRecursive_iff]
    constructor
    · rintro ⟨group, hmem, hname, hother⟩
      obtain ⟨hthere, hback⟩ := (mem_component_iff (hsublist.subset hmem) hname).mp hother
      exact ⟨hthere, hback, hloop hmem hname⟩
    · rintro ⟨hthere, hback, hself⟩
      obtain ⟨group, hmem, hname⟩ := hgroup hself
      exact ⟨group, hmem, hname,
        (mem_component_iff (hsublist.subset hmem) hname).mpr ⟨hthere, hback⟩⟩

end ContractAudit.CallGraph
