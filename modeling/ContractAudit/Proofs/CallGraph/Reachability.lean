import ContractAudit.Proofs.CallGraph.Callers

/-!
# What is reached along calls

The functions reached from a function are found along a worklist: a name is taken off, and if it is
new and in the graph it is visited and its successors come behind the rest. The successors of what
is not visited yet bound the names that may still come, so that every round brings the end nearer.
Whatever leads on from what is visited is visited or on the worklist, so nothing is missed.
-/

namespace ContractAudit.CallGraph

open Relation List

variable {graph : CallGraph} {successors : String → List String} {name other : String}
  {worklist visited : List String} {before after : List String × List String} (keys : List String)

def Leads (graph : CallGraph) (successors : String → List String) (name other : String) : Prop :=
  other ∈ successors name ∧ other ∈ graph.keys

/-- One round along a worklist, beside the functions visited. -/
inductive Round (graph : CallGraph) (successors : String → List String) :
    List String × List String → List String × List String → Prop
  | skip {name : String} {worklist visited : List String} (h : name ∈ visited ∨ name ∉ graph.keys) :
      Round graph successors (name :: worklist, visited) (worklist, visited)
  | visit {name : String} {worklist visited : List String} (hnew : name ∉ visited)
      (hknown : name ∈ graph.keys) :
      Round graph successors (name :: worklist, visited)
        (worklist ++ successors name, visited ++ [name])

/-! ## Every round brings the end nearer -/

def toCome (successors : String → List String) (visited : List String) : List String → Nat
  | [] => 0
  | key :: keys =>
      (if key ∈ visited then 0 else (successors key).length) + toCome successors visited keys

theorem toCome_nil (start : Nat) :
    keys.foldr (fun key count => (successors key).length + count) start =
      start + toCome successors [] keys := by
  induction keys with
  | nil => rfl
  | cons key keys ih => simp [toCome, ih, Nat.add_left_comm]

theorem toCome_visit_le :
    toCome successors (visited ++ [name]) keys ≤ toCome successors visited keys := by
  induction keys with
  | nil => exact Nat.le_refl _
  | cons key keys ih =>
      by_cases hkey : key ∈ visited
      · simpa [toCome, hkey] using ih
      · simp only [toCome, mem_append, mem_singleton, hkey, false_or, if_false]
        split <;> omega

theorem toCome_visit (hnew : name ∉ visited) {keys : List String} (hknown : name ∈ keys) :
    (successors name).length + toCome successors (visited ++ [name]) keys ≤
      toCome successors visited keys := by
  induction keys with
  | nil => cases hknown
  | cons key keys ih =>
      have hrest : toCome successors (visited ++ [name]) keys ≤ toCome successors visited keys :=
        toCome_visit_le keys
      by_cases hkey : key = name
      · subst hkey
        simp only [toCome, mem_append, mem_singleton, or_true, if_true, hnew, if_false]
        omega
      · have := ih ((mem_cons.mp hknown).resolve_left (Ne.symm hkey))
        simp only [toCome, mem_append, mem_singleton, hkey, or_false]
        omega

def load (graph : CallGraph) (successors : String → List String)
    (state : List String × List String) : Nat :=
  state.1.length + toCome successors state.2 graph.keys

theorem Round.load_lt (h : Round graph successors before after) :
    graph.load successors after < graph.load successors before := by
  cases h with
  | skip => simp [load]
  | visit hnew hknown =>
      have hvisit := @toCome_visit successors _ _ hnew _ hknown
      simp only [load, length_append, length_cons]
      omega

theorem wellFounded_round (graph : CallGraph) (successors : String → List String) :
    WellFounded fun after before => Round graph successors before after :=
  Subrelation.wf Round.load_lt (measure (graph.load successors)).wf

theorem closure_runs {steps : Nat} (h : graph.load successors (worklist, visited) ≤ steps) :
    ReflTransGen (Round graph successors) (worklist, visited)
      ([], graph.closure successors steps worklist visited) := by
  induction steps generalizing worklist visited with
  | zero =>
      obtain rfl : worklist = [] :=
        length_eq_zero_iff.mp (Nat.add_eq_zero_iff.mp (Nat.le_zero.mp h)).1
      exact .refl
  | succ steps ih =>
      cases worklist with
      | nil => exact .refl
      | cons name worklist =>
          rw [closure]
          split
          · next hskip =>
              have hround : Round graph successors (name :: worklist, visited) (worklist,
                visited) := by
                refine .skip ?_
                simpa [Table.contains_iff, ← Bool.not_eq_true] using hskip
              exact .head hround (ih (by have := hround.load_lt; omega))
          · next hvisit =>
              simp only [Bool.or_eq_true, contains_iff_mem, not_or, Bool.not_eq_true',
                Bool.not_eq_false, Table.contains_iff] at hvisit
              have hround : Round graph successors (name :: worklist, visited) _ :=
                .visit hvisit.1 hvisit.2
              exact .head hround (ih (by have := hround.load_lt; omega))

theorem reachable_runs (graph : CallGraph) (successors : String → List String) (name : String) :
    ReflTransGen (Round graph successors) (successors name, [])
      ([], graph.reachable successors name) := by
  refine closure_runs (Nat.le_of_eq ?_)
  rw [toCome_nil]
  rfl

/-! ## What a run finds -/

/-- What holds after every round of a run from the successors of a function. -/
structure Explored (graph : CallGraph) (successors : String → List String) (name : String)
    (state : List String × List String) : Prop where
  nodup : state.2.Nodup
  visited : ∀ other ∈ state.2, TransGen (graph.Leads successors) name other
  awaited : ∀ other ∈ state.1, other ∈ graph.keys → TransGen (graph.Leads successors) name other
  closed : ∀ source, source = name ∨ source ∈ state.2 → ∀ other,
    graph.Leads successors source other →
    other ∈ state.2 ∨ other ∈ state.1

theorem explored_start (graph : CallGraph) (successors : String → List String) (name : String) :
    Explored graph successors name (successors name, []) where
  nodup := .nil
  visited _ hother := nomatch hother
  awaited _ hother hknown := .single ⟨hother, hknown⟩
  closed source hsource other hleads := by
    obtain rfl := hsource.resolve_right not_mem_nil
    exact .inr hleads.1

theorem Explored.round (h : Explored graph successors name before)
    (hround : Round graph successors before after) : Explored graph successors name after := by
  cases hround with
  | @skip next worklist visited hskip =>
      refine ⟨h.nodup, h.visited, fun other hother => h.awaited other (.tail _ hother), ?_⟩
      intro source hsource other hleads
      rcases h.closed source hsource other hleads with hother | hother
      · exact .inl hother
      · -- A function that leads on from here is in the graph, so the name was visited before.
        rcases mem_cons.mp hother with rfl | hother
        · exact .inl (hskip.resolve_right fun hnot => hnot hleads.2)
        · exact .inr hother
  | @visit next worklist visited hnew hknown =>
      have hnext := h.awaited next mem_cons_self hknown
      refine ⟨?nodup, ?visited, ?awaited, ?closed⟩
      case nodup => exact nodup_append.mpr ⟨h.nodup, nodup_singleton _, by
        rintro other hother _ hlast rfl
        exact hnew (mem_singleton.mp hlast ▸ hother)⟩
      case visited =>
        intro other hother
        rcases mem_append.mp hother with hother | hother
        · exact h.visited other hother
        · rwa [mem_singleton.mp hother]
      case awaited =>
        intro other hother hkey
        rcases mem_append.mp hother with hother | hother
        · exact h.awaited other (.tail _ hother) hkey
        · exact hnext.tail ⟨hother, hkey⟩
      case closed =>
        intro source hsource other hleads
        by_cases hlast : source = next
        · subst hlast
          exact .inr (mem_append_right _ hleads.1)
        · have hold : source = name ∨ source ∈ visited :=
            hsource.imp_right fun hmem => (mem_append.mp hmem).resolve_right fun hmem =>
              hlast (mem_singleton.mp hmem)
          rcases h.closed source hold other hleads with hother | hother
          · exact .inl (mem_append_left _ hother)
          · rcases mem_cons.mp hother with rfl | hother
            · exact .inl (mem_append_right _ (mem_singleton.mpr rfl))
            · exact .inr (mem_append_left _ hother)

theorem Explored.run (h : Explored graph successors name before)
    (hrun : ReflTransGen (Round graph successors) before after) :
    Explored graph successors name after := by
  induction hrun with
  | refl => exact h
  | tail _ hround ih => exact ih.round hround

/-- When the worklist is empty, exactly what is reached has been visited. -/
theorem Explored.mem_iff (h : Explored graph successors name ([], visited)) :
    other ∈ visited ↔ TransGen (graph.Leads successors) name other := by
  refine ⟨h.visited other, fun hreach => ?_⟩
  have hclosed {source next : String} (hsource : source = name ∨ source ∈ visited)
      (hleads : graph.Leads successors source next) : next ∈ visited :=
    (h.closed source hsource next hleads).resolve_right not_mem_nil
  induction hreach with
  | single hleads => exact hclosed (.inl rfl) hleads
  | tail _ hleads ih => exact hclosed (.inr ih) hleads

theorem explored_reachable (graph : CallGraph) (successors : String → List String) (name : String) :
    Explored graph successors name ([], graph.reachable successors name) :=
  (explored_start graph successors name).run (reachable_runs graph successors name)

theorem calls_eq_leads (graph : CallGraph) : graph.Calls = graph.Leads graph.callsOf :=
  funext fun _ => funext fun _ => propext calls_iff

theorem calledBy_eq_leads (graph : CallGraph) : graph.CalledBy = graph.Leads graph.callersOf :=
  funext fun _ => funext fun _ => propext calledBy_iff

/-- The graph steps that a query follows are those of a relation, and the query gives exactly what
the relation reaches: its loop ends on every graph, whatever the worklist and the functions visited,
and the run from the given name ends with the answer. -/
structure Answers (graph : CallGraph) (successors : String → List String)
    (step : String → String → Prop) (name : String) (answer : List String) : Prop where
  ends : WellFounded fun after before => Round graph successors before after
  run : ReflTransGen (Round graph successors) (successors name, []) ([], answer)
  nodup : answer.Nodup
  mem_iff : ∀ other, other ∈ answer ↔ TransGen step name other
  unknown : name ∉ graph.keys → answer = []

theorem answers_reachable {step : String → String → Prop} (hstep : step = graph.Leads successors)
    (hknown : ∀ {other}, other ∈ successors name → name ∈ graph.keys) :
    Answers graph successors step name (graph.reachable successors name) where
  ends := wellFounded_round graph successors
  run := reachable_runs graph successors name
  nodup := (explored_reachable graph successors name).nodup
  mem_iff _ := hstep ▸ (explored_reachable graph successors name).mem_iff
  unknown hmissing := by
    refine eq_nil_iff_forall_not_mem.mpr fun other hother => hmissing ?_
    -- What is reached is reached by a first step, which an unknown name does not have.
    obtain ⟨_, hleads, _⟩ :=
      TransGen.head'_iff.mp ((explored_reachable graph successors name).mem_iff.mp hother)
    exact hknown hleads.1

theorem answers_transitiveCallees (graph : CallGraph) (name : String) :
    Answers graph graph.callsOf graph.Calls name (graph.transitiveCallees name) :=
  answers_reachable (calls_eq_leads graph) mem_keys_of_listed

theorem answers_transitiveCallers (graph : CallGraph) (name : String) :
    Answers graph graph.callersOf graph.CalledBy name (graph.transitiveCallers name) :=
  answers_reachable (calledBy_eq_leads graph) mem_keys_of_listed

/-- The transitive queries compute reachability. On every graph and for every name their loops
end, with exactly the functions of the graph that one or more calls lead to, or that are found by
one or more steps from callee to caller, each once, and with nothing for an unknown name. In the
graph of a contract the two are dual. -/
theorem transitive_queries_compute_reachability : (∀ (graph : CallGraph) (name : String),
      Answers graph graph.callsOf graph.Calls name (graph.transitiveCallees name) ∧
      Answers graph graph.callersOf graph.CalledBy name (graph.transitiveCallers name)) ∧
    ∀ (semantic : SemanticResult) (caller callee : String),
      callee ∈ (callGraph semantic).transitiveCallees caller ↔
        caller ∈ (callGraph semantic).transitiveCallers callee := by
  refine ⟨fun graph name => ⟨answers_transitiveCallees graph name,
    answers_transitiveCallers graph name⟩, fun semantic caller callee => ?_⟩
  have hswap : (callGraph semantic).CalledBy = Function.swap (callGraph semantic).Calls :=
    funext fun _ => funext fun _ => propext (calledBy_callGraph semantic)
  rw [(answers_transitiveCallees _ caller).mem_iff, (answers_transitiveCallers _ callee).mem_iff,
    hswap, transGen_swap]

end ContractAudit.CallGraph
