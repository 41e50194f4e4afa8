import ContractAudit.CallGraph.Components
import ContractAudit.Proofs.Table
import Mathlib.Data.List.Perm.Basic
import Mathlib.Logic.Relation

/-!
# The search for strongly connected components

The functions on the way from the start of a visit to the function being visited form a path. What
holds between visits is said relative to this path: waiting functions numbered earlier lead to those
numbered later, every waiting function leads back to one on the path, whatever a finished function
calls has been met, and the components found are those of the graph.
-/

namespace ContractAudit.CallGraph

open Relation List Table

variable {new rest : List String} {x y : String}

def Calls (graph : CallGraph) (caller callee : String) : Prop :=
  caller ∈ graph.keys ∧ callee ∈ graph.keys ∧ callee ∈ graph.callsOf caller

/-- Zero or more calls lead from one function to another. -/
def Reaches (graph : CallGraph) : String → String → Prop :=
  ReflTransGen graph.Calls

namespace Search

variable {callee : String} {start : Nat}

def met (search : Search) : List String :=
  search.numbers.keys

def number (search : Search) (name : String) : Nat :=
  search.met.idxOf name

/-- What holds of the search while the functions on a path are visited. -/
structure Inv (graph : CallGraph) (path : List String) (search : Search) : Prop where
  known : ∀ name ∈ search.met, name ∈ graph.keys
  nodup : search.met.Nodup
  numbered : ∀ name ∈ search.met, search.numbers.get? name = some (search.number name)
  placed : ∀ name, name ∈ search.met ↔ name ∈ search.waiting ∨ name ∈ search.components.flatten
  apart : (search.waiting ++ search.components.flatten).Nodup
  path_waits : ∀ name ∈ path, name ∈ search.waiting
  forward : ∀ x ∈ search.waiting, ∀ y ∈ search.waiting, search.number x ≤ search.number y →
    graph.Reaches x y
  back : ∀ y ∈ search.waiting, ∃ x ∈ path, search.number x ≤ search.number y ∧ graph.Reaches y x
  closed : ∀ x ∈ search.met, x ∉ path → ∀ y, graph.Calls x y → y ∈ search.met
  connected : ∀ component ∈ search.components, ∀ x ∈ component, ∀ y,
    y ∈ component ↔ graph.Reaches x y ∧ graph.Reaches y x
  callees_first : ∀ before component, before ++ [component] <+: search.components →
    ∀ x ∈ component, ∀ y, graph.Calls x y → y ∈ component ∨ y ∈ before.flatten

/-- A later state of the search: what is met, waits or is found stays so, and what has begun to wait
since is new. -/
structure Extends (search later : Search) : Prop where
  met : search.met <+: later.met
  waiting : search.waiting <:+ later.waiting
  components : search.components <+: later.components
  fresh : ∀ name ∈ later.waiting, name ∉ search.waiting → name ∉ search.met

variable {graph : CallGraph} {path : List String} {search later last : Search} {name : String}

namespace Extends

theorem refl (search : Search) : search.Extends search :=
  ⟨prefix_refl _, suffix_refl _, prefix_refl _, fun _ h hnot => absurd h hnot⟩

theorem trans (h : search.Extends later) (h' : later.Extends last) : search.Extends last := by
  refine ⟨h.met.trans h'.met, h.waiting.trans h'.waiting, h.components.trans h'.components, ?_⟩
  intro name hname hnot hmet
  by_cases hwaits : name ∈ later.waiting
  · exact h.fresh name hwaits hnot hmet
  · exact h'.fresh name hname hwaits (h.met.subset hmet)

theorem number_eq (h : search.Extends later) (hname : name ∈ search.met) :
    later.number name = search.number name := by
  obtain ⟨rest, hrest⟩ := h.met
  rw [number, ← hrest, idxOf_append_of_mem hname]
  rfl

theorem le_number (h : search.Extends later) (hname : name ∉ search.met) :
    search.met.length ≤ later.number name := by
  obtain ⟨rest, hrest⟩ := h.met
  rw [number, ← hrest, idxOf_append_of_notMem hname]
  exact Nat.le_add_right _ _

end Extends

theorem number_lt (h : name ∈ search.met) : search.number name < search.met.length :=
  idxOf_lt_length_of_mem h

namespace Inv

theorem met_of_waiting (h : Inv graph path search) (hname : name ∈ search.waiting) :
    name ∈ search.met :=
  (h.placed name).mpr (.inl hname)

theorem length_met_lt (h : Inv graph path search) (hname : name ∈ graph.keys)
    (hfresh : name ∉ search.met) : search.met.length < graph.size := by
  have hnodup : (name :: search.met).Nodup := nodup_cons.mpr ⟨hfresh, h.nodup⟩
  have hsubset : name :: search.met ⊆ graph.keys := cons_subset.mpr ⟨hname, h.known⟩
  have hlength := (subperm_of_subset hnodup hsubset).length_le
  rw [length_cons, length_keys] at hlength
  omega

end Inv

/-! ## Meeting a function -/

theorem met_enter (h : name ∉ search.met) : (search.enter name).met = search.met ++ [name] :=
  keys_insertNew h _

theorem extends_enter (h : name ∉ search.met) : search.Extends (search.enter name) := by
  refine ⟨?_, suffix_cons name _, prefix_refl _, ?_⟩
  · rw [met_enter h]
    exact prefix_append _ _
  · intro other hother hnot
    rcases mem_cons.mp hother with rfl | hother
    · exact h
    · exact absurd hother hnot

theorem number_enter_self (h : name ∉ search.met) :
    (search.enter name).number name = search.met.length := by
  rw [number, met_enter h, idxOf_append_of_notMem h]
  simp

theorem inv_enter (h : Inv graph path search) (hname : name ∈ graph.keys)
    (hfresh : name ∉ search.met) (hpath : ∀ x ∈ path, graph.Reaches x name) :
    Inv graph (name :: path) (search.enter name) := by
  have hmet := met_enter hfresh
  have hextends := extends_enter hfresh
  have hself := number_enter_self hfresh
  -- Whoever waits leads to the path, and the path leads to the new function.
  have hreaches : ∀ x ∈ search.waiting, graph.Reaches x name := by
    intro x hx
    obtain ⟨g, hg, _, hxg⟩ := h.back x hx
    exact hxg.trans (hpath g hg)
  have hold : ∀ x ∈ search.waiting, (search.enter name).number x = search.number x :=
    fun x hx => hextends.number_eq (h.met_of_waiting hx)
  have hbelow : ∀ x ∈ search.waiting, (search.enter name).number x < search.met.length := by
    intro x hx
    rw [hold x hx]
    exact number_lt (h.met_of_waiting hx)
  have hmem : ∀ x, x ∈ (search.enter name).met ↔ x ∈ search.met ∨ x = name := by
    intro x
    rw [hmet, mem_append, mem_singleton]
  refine { known := ?known, nodup := ?nodup, numbered := ?numbered, placed := ?placed,
           apart := ?apart, path_waits := ?path_waits, forward := ?forward, back := ?back,
           closed := ?closed, connected := h.connected, callees_first := h.callees_first }
  case known =>
    intro x hx
    rcases (hmem x).mp hx with hx | rfl
    · exact h.known x hx
    · exact hname
  case nodup =>
    rw [hmet, nodup_append]
    refine ⟨h.nodup, by simp, fun x hx y hy hxy => hfresh ?_⟩
    rwa [← mem_singleton.mp hy, ← hxy]
  case numbered =>
    intro x hx
    rcases (hmem x).mp hx with hx | rfl
    · rw [hextends.number_eq hx, ← h.numbered x hx]
      exact get?_insertNew_of_mem hx _
    · rw [hself]
      exact (get?_insertNew_self hfresh _).trans
        (congrArg some (length_keys search.numbers).symm)
  case placed =>
    intro x
    rw [hmem, h.placed x]
    show _ ↔ x ∈ name :: search.waiting ∨ _
    rw [mem_cons]
    tauto
  case apart =>
    refine nodup_cons.mpr ⟨fun hmem => hfresh ?_, h.apart⟩
    exact (h.placed name).mpr (mem_append.mp hmem)
  case path_waits =>
    intro x hx
    rcases mem_cons.mp hx with rfl | hx
    · exact mem_cons_self
    · exact mem_cons_of_mem name (h.path_waits x hx)
  case forward =>
    intro x hx y hy hle
    rcases mem_cons.mp hy with rfl | hyold
    · rcases mem_cons.mp hx with rfl | hxold
      · exact .refl
      · exact hreaches x hxold
    · have hlt := hbelow y hyold
      rcases mem_cons.mp hx with rfl | hxold
      · -- The new function has the last number, so it is not numbered before another.
        omega
      · rw [hold x hxold, hold y hyold] at hle
        exact h.forward x hxold y hyold hle
  case back =>
    intro y hy
    rcases mem_cons.mp hy with rfl | hy
    · exact ⟨y, mem_cons_self, Nat.le_refl _, .refl⟩
    · obtain ⟨x, hx, hle, hyx⟩ := h.back y hy
      refine ⟨x, mem_cons_of_mem name hx, ?_, hyx⟩
      rw [hold x (h.path_waits x hx), hold y hy]
      exact hle
  case closed =>
    intro x hx hnot y hcalls
    rw [mem_cons, not_or] at hnot
    rcases (hmem x).mp hx with hx | rfl
    · exact (hmem y).mpr (.inl (h.closed x hx hnot.2 y hcalls))
    · exact absurd rfl hnot.1

/-! ## Following calls -/

/-- A function is about to be visited. -/
structure Ready (graph : CallGraph) (path : List String) (name : String) (search : Search) :
    Prop where
  inv : Inv graph path search
  known : name ∈ graph.keys
  fresh : name ∉ search.met
  path_reaches : ∀ x ∈ path, graph.Reaches x name

/-- No call from a function that has begun to wait since leads to one that waited before and has a
number below a bound. -/
def Bounded (graph : CallGraph) (search later : Search) (least : Nat) : Prop :=
  ∀ x ∈ later.waiting, x ∉ search.waiting → ∀ y ∈ search.waiting, graph.Calls x y →
    least ≤ search.number y

def Found (graph : CallGraph) (name : String) (search : Search) (least : Nat) : Prop :=
  ∃ y ∈ search.waiting, search.number y = least ∧ graph.Reaches name y

/-- A function has been visited, with the least number found. -/
structure Visited (graph : CallGraph) (path : List String) (name : String) (search : Search)
    (least : Nat) (later : Search) : Prop where
  inv : Inv graph path later
  ext : search.Extends later
  met : name ∈ later.met
  least_le : least ≤ search.met.length
  found : least < search.met.length → Found graph name later least
  bounded : Bounded graph search later least

/-- The calls of a function have been followed from a number on, with the least number found. -/
structure Followed (graph : CallGraph) (path : List String) (name : String) (calls : List String)
    (search : Search) (start least : Nat) (later : Search) : Prop where
  inv : Inv graph path later
  ext : search.Extends later
  least_le : least ≤ start
  found : least < start → Found graph name later least
  met : ∀ callee ∈ calls, callee ∈ graph.keys → callee ∈ later.met
  least_le_callee : ∀ callee ∈ calls, callee ∈ search.waiting → least ≤ search.number callee
  bounded : Bounded graph search later least

theorem Found.mono {least : Nat} (h : Found graph name search least)
    (hinv : Inv graph path search) (hext : search.Extends later) :
    Found graph name later least := by
  obtain ⟨y, hy, hnumber, hreaches⟩ := h
  refine ⟨y, hext.waiting.subset hy, ?_, hreaches⟩
  rw [hext.number_eq (hinv.met_of_waiting hy), hnumber]

theorem Found.of_call {least : Nat} (hcall : graph.Calls name callee)
    (h : Found graph callee search least) : Found graph name search least := by
  obtain ⟨y, hy, hnumber, hreaches⟩ := h
  exact ⟨y, hy, hnumber, .head hcall hreaches⟩

theorem followed_nil (h : Inv graph path search) (name : String) (start : Nat) :
    Followed graph path name [] search start start search where
  inv := h
  ext := .refl search
  least_le := Nat.le_refl start
  found := fun hlt => absurd hlt (Nat.lt_irrefl start)
  met := by simp
  least_le_callee := by simp
  bounded := fun x hx hnot => absurd hx hnot

theorem Visited.followed {reached least : Nat}
    (hvisit : Visited graph path callee search reached later) (hcall : graph.Calls name callee)
    (hfresh : callee ∉ search.met) (hinv : Inv graph path search)
    (hstart : start ≤ search.met.length)
    (hrest : Followed graph path name rest later (min start reached) least last) :
    Followed graph path name (callee :: rest) search start least last := by
  have hle : least ≤ start ∧ least ≤ reached := by
    have := hrest.least_le
    omega
  have hnumber : ∀ y ∈ search.waiting, later.number y = search.number y :=
    fun y hy => hvisit.ext.number_eq (hinv.met_of_waiting hy)
  refine ⟨hrest.inv, hvisit.ext.trans hrest.ext, hle.1, fun hlt => ?_, ?_, ?_, ?_⟩
  · by_cases hmin : least < min start reached
    · exact hrest.found hmin
    · -- The least number is the one that the visit found.
      have heq : least = reached := by omega
      have hfound := hvisit.found (by omega)
      rw [← heq] at hfound
      exact (hfound.of_call hcall).mono hvisit.inv hrest.ext
  · intro other hother hknown
    rcases mem_cons.mp hother with rfl | hother
    · exact hrest.ext.met.subset hvisit.met
    · exact hrest.met other hother hknown
  · intro other hother hwaits
    rcases mem_cons.mp hother with rfl | hother
    · exact absurd (hinv.met_of_waiting hwaits) hfresh
    · rw [← hnumber other hwaits]
      exact hrest.least_le_callee other hother (hvisit.ext.waiting.subset hwaits)
  · intro x hx hnot y hy hxy
    by_cases hlater : x ∈ later.waiting
    · have := hvisit.bounded x hlater hnot y hy hxy
      omega
    · -- It began to wait after the visit, when the other calls were followed.
      rw [← hnumber y hy]
      exact hrest.bounded x hx hlater y (hvisit.ext.waiting.subset hy) hxy

theorem Followed.cons_waiting {least : Nat} (hcall : graph.Calls name callee)
    (hinv : Inv graph path search) (hwaits : callee ∈ search.waiting)
    (h : Followed graph path name rest search (min start (search.number callee)) least later) :
    Followed graph path name (callee :: rest) search start least later := by
  have hmet := hinv.met_of_waiting hwaits
  have hle : least ≤ start ∧ least ≤ search.number callee := by
    have := h.least_le
    omega
  refine ⟨h.inv, h.ext, hle.1, fun hlt => ?_, ?_, ?_, h.bounded⟩
  · by_cases hmin : least < min start (search.number callee)
    · exact h.found hmin
    · have heq : search.number callee = least := by omega
      refine ⟨callee, h.ext.waiting.subset hwaits, ?_, .single hcall⟩
      rw [h.ext.number_eq hmet, heq]
  · intro other hother hknown
    rcases mem_cons.mp hother with rfl | hother
    · exact h.ext.met.subset hmet
    · exact h.met other hother hknown
  · intro other hother hother'
    rcases mem_cons.mp hother with rfl | hother
    · exact hle.2
    · exact h.least_le_callee other hother hother'

theorem Followed.cons_skip {least : Nat} (hwaits : callee ∉ search.waiting)
    (hmet : callee ∈ graph.keys → callee ∈ search.met)
    (h : Followed graph path name rest search start least later) :
    Followed graph path name (callee :: rest) search start least later := by
  refine ⟨h.inv, h.ext, h.least_le, h.found, ?_, ?_, h.bounded⟩
  · intro other hother hknown
    rcases mem_cons.mp hother with rfl | hother
    · exact h.ext.met.subset (hmet hknown)
    · exact h.met other hother hknown
  · intro other hother hother'
    rcases mem_cons.mp hother with rfl | hother
    · exact absurd hother' hwaits
    · exact h.least_le_callee other hother hother'

theorem follow_followed {visit : String → Search → Nat × Search} (bound : Nat)
    (hvisit : ∀ callee search, Ready graph path callee search → bound ≤ search.met.length →
      Visited graph path callee search (visit callee search).1 (visit callee search).2)
    (hpath : ∀ x ∈ path, graph.Reaches x name) {calls : List String}
    (hcalls : ∀ callee ∈ calls, callee ∈ graph.keys → graph.Calls name callee)
    (hinv : Inv graph path search) (hstart : start ≤ search.met.length)
    (hbound : bound ≤ search.met.length) :
    Followed graph path name calls search start (follow graph visit start calls search).1
      (follow graph visit start calls search).2 := by
  induction calls generalizing start search with
  | nil => exact followed_nil hinv name start
  | cons callee rest ih =>
      have hrest : ∀ other ∈ rest, other ∈ graph.keys → graph.Calls name other :=
        fun other hother => hcalls other (mem_cons_of_mem callee hother)
      rw [follow]
      by_cases hknown : graph.contains callee = true
      · have hmem := contains_iff.mp hknown
        have hcall := hcalls callee mem_cons_self hmem
        rw [if_neg (by simp [hknown])]
        cases hget : search.numbers.get? callee with
        | none =>
            -- Visits forget nothing, so the bounds hold for the callees that follow too.
            have hfresh : callee ∉ search.met := get?_eq_none_iff.mp hget
            have hready : Ready graph path callee search :=
              ⟨hinv, hmem, hfresh, fun x hx => (hpath x hx).tail hcall⟩
            have hvisited := hvisit callee search hready hbound
            have hlength := hvisited.ext.met.length_le
            exact hvisited.followed hcall hfresh hinv hstart
              (ih hrest hvisited.inv (by omega) (by omega))
        | some number =>
            have hmet : callee ∈ search.met := by
              by_contra hnot
              rw [get?_eq_none_iff.mpr hnot] at hget
              cases hget
            have hnumber : search.number callee = number := by
              rw [hinv.numbered callee hmet] at hget
              exact Option.some.inj hget
            by_cases hwaits : search.waiting.contains callee = true
            · have hmin : min start number ≤ search.met.length := by omega
              simp only [hwaits, if_true]
              refine Followed.cons_waiting hcall hinv (by simpa using hwaits) ?_
              rw [hnumber]
              exact ih hrest hinv hmin hbound
            · simp only [hwaits]
              exact .cons_skip (by simpa using hwaits) (fun _ => hmet) (ih hrest hinv hstart hbound)
      · rw [if_pos (by simp [hknown])]
        have hunknown : callee ∉ graph.keys := fun hmem => hknown (contains_iff.mpr hmem)
        refine .cons_skip (fun hwaits => hunknown ?_) (fun hmem => absurd hmem hunknown)
          (ih hrest hinv hstart hbound)
        exact hinv.known callee (hinv.met_of_waiting hwaits)

/-! ## The end of a visit -/

section EndOfVisit

variable {least : Nat} (hready : Ready graph path name search)
  (h : Followed graph (name :: path) name (graph.callsOf name) (search.enter name)
    search.met.length least later)

include hready h

theorem extends_of_followed : search.Extends later :=
  (extends_enter hready.fresh).trans h.ext

omit hready in
theorem name_waits : name ∈ later.waiting :=
  h.ext.waiting.subset mem_cons_self

theorem number_name : later.number name = search.met.length := by
  have hmet : name ∈ (search.enter name).met := by
    rw [met_enter hready.fresh]
    simp
  rw [h.ext.number_eq hmet, number_enter_self hready.fresh]

theorem closed_of_followed : ∀ x ∈ later.met, x ∉ path → ∀ y, graph.Calls x y → y ∈ later.met := by
  intro x hx hnot y hcall
  by_cases hname : x = name
  · subst hname
    exact h.met y hcall.2.2 hcall.2.1
  · exact h.inv.closed x hx (by simp [hname, hnot]) y hcall

theorem bounded_of_followed : Bounded graph search later least := by
  intro x hx hnot y hy hcall
  have hentered : (search.enter name).number y = search.number y :=
    (extends_enter hready.fresh).number_eq (hready.inv.met_of_waiting hy)
  rw [← hentered]
  by_cases hname : x = name
  · subst hname
    exact h.least_le_callee y hcall.2.2 (mem_cons_of_mem x hy)
  · refine h.bounded x hx (fun hmem => ?_) y (mem_cons_of_mem name hy) hcall
    rcases mem_cons.mp hmem with rfl | hmem
    · exact hname rfl
    · exact hnot hmem

theorem visited_of_lt (hlt : least < search.met.length) :
    Visited graph path name search least later := by
  have hext := extends_of_followed hready h
  have hfound := h.found hlt
  refine ⟨{ h.inv with path_waits := ?_, back := ?_, closed := closed_of_followed hready h }, hext,
    h.inv.met_of_waiting (name_waits h), by omega, fun _ => hfound,
    bounded_of_followed hready h⟩
  · exact fun x hx => h.inv.path_waits x (mem_cons_of_mem name hx)
  · intro y hy
    obtain ⟨g, hg, hle, hyg⟩ := h.inv.back y hy
    rcases mem_cons.mp hg with rfl | hg
    · -- The visited function leads to an earlier one, and that leads back to the path.
      obtain ⟨w, hw, hnumber, hgw⟩ := hfound
      have hwold : w ∈ search.waiting := by
        by_contra hnot
        have := hext.le_number (hext.fresh w hw hnot)
        omega
      obtain ⟨x, hx, hxw, hwx⟩ := hready.inv.back w hwold
      refine ⟨x, hx, ?_, hyg.trans (hgw.trans hwx)⟩
      have hx' := hext.number_eq (hready.inv.met_of_waiting (hready.inv.path_waits x hx))
      have hw' := hext.number_eq (hready.inv.met_of_waiting hwold)
      have hname := number_name hready h
      omega
    · exact ⟨g, hg, hle, hyg⟩

omit hready in
theorem exists_component : ∃ new, later.waiting = new ++ name :: search.waiting ∧
      later.complete name =
        { later with
          waiting := search.waiting
          components := later.components ++ [new ++ [name]] } := by
  obtain ⟨new, hnew⟩ := h.ext.waiting
  have hwaiting : later.waiting = new ++ name :: search.waiting := hnew.symm
  have hnodup := (nodup_append.mp h.inv.apart).1
  rw [hwaiting] at hnodup
  have hnot : ∀ x ∈ new, decide (x ≠ name) = true := by
    intro x hx
    rw [decide_eq_true_eq]
    exact (nodup_append.mp hnodup).2.2 x hx name mem_cons_self
  refine ⟨new, hwaiting, ?_⟩
  rw [complete, hwaiting, takeWhile_append_of_pos hnot, dropWhile_append_of_pos hnot]
  simp

omit hready in
theorem mem_component (hwaiting : later.waiting = new ++ name :: search.waiting) (x : String) :
    x ∈ new ++ [name] ↔ x ∈ later.waiting ∧ x ∉ search.waiting := by
  have hsplit : later.waiting = new ++ [name] ++ search.waiting := by simp [hwaiting]
  have hnodup := (nodup_append.mp h.inv.apart).1
  rw [hsplit, nodup_append] at hnodup
  rw [hsplit]
  constructor
  · intro hx
    exact ⟨mem_append_left _ hx, fun hold => hnodup.2.2 x hx x hold rfl⟩
  · intro hx
    exact (mem_append.mp hx.1).resolve_right hx.2

theorem component_mutual (hx : x ∈ later.waiting) (hnot : x ∉ search.waiting) :
    graph.Reaches name x ∧ graph.Reaches x name := by
  have hext := extends_of_followed hready h
  have hle : later.number name ≤ later.number x := by
    rw [number_name hready h]
    exact hext.le_number (hext.fresh x hx hnot)
  refine ⟨h.inv.forward name (name_waits h) x hx hle, ?_⟩
  obtain ⟨g, hg, _, hxg⟩ := h.inv.back x hx
  rcases mem_cons.mp hg with rfl | hg
  · exact hxg
  · exact hxg.trans (hready.path_reaches g hg)

theorem calls_of_component (hleast : least = search.met.length)
    (hx : x ∈ later.waiting) (hnot : x ∉ search.waiting) (hcall : graph.Calls x y) :
    y ∈ later.waiting ∧ y ∉ search.waiting ∨ y ∈ later.components.flatten := by
  have hpath : x ∉ path := fun hmem => hnot (hready.inv.path_waits x hmem)
  have hmet := closed_of_followed hready h x (h.inv.met_of_waiting hx) hpath y hcall
  rcases (h.inv.placed y).mp hmet with hwaits | hfound
  · refine .inl ⟨hwaits, fun hold => ?_⟩
    -- An earlier number would have been found.
    have hle := bounded_of_followed hready h x hx hnot y hold hcall
    have hlt := number_lt (hready.inv.met_of_waiting hold)
    omega
  · exact .inr hfound

theorem component_maximal (hleast : least = search.met.length)
    (hy : graph.Reaches name y) (hback : graph.Reaches y name) :
    y ∈ later.waiting ∧ y ∉ search.waiting := by
  -- Along the calls that lead from the visited function to the other one.
  induction hy with
  | refl => exact ⟨name_waits h, fun hmem => hready.fresh (hready.inv.met_of_waiting hmem)⟩
  | @tail x z hnx hxz ih =>
      obtain ⟨hx, hnot⟩ := ih (.head hxz hback)
      rcases calls_of_component hready h hleast hx hnot hxz with hnew | hfound
      · exact hnew
      · -- A component found before holds every function that it and the component reach.
        obtain ⟨component, hcomponent, hz⟩ := mem_flatten.mp hfound
        have hzx : graph.Reaches z x := hback.trans hnx
        have hmem := (h.inv.connected component hcomponent z hz x).mpr ⟨hzx, .single hxz⟩
        have hdisjoint := (nodup_append.mp h.inv.apart).2.2 x hx x
          (mem_flatten.mpr ⟨component, hcomponent, hmem⟩)
        exact absurd rfl hdisjoint

theorem inv_complete (hleast : least = search.met.length)
    (hwaiting : later.waiting = new ++ name :: search.waiting) :
    Inv graph path
      { later with
        waiting := search.waiting
        components := later.components ++ [new ++ [name]] } := by
  have hext := extends_of_followed hready h
  have hmem := mem_component h hwaiting
  have hold : ∀ x ∈ search.waiting, x ∈ later.waiting := fun x hx => hext.waiting.subset hx
  have hnumber : ∀ x ∈ search.waiting, later.number x = search.number x :=
    fun x hx => hext.number_eq (hready.inv.met_of_waiting hx)
  have hflatten : (later.components ++ [new ++ [name]]).flatten =
      later.components.flatten ++ (new ++ [name]) := by simp
  have hclosed := closed_of_followed hready h
  refine { h.inv with placed := ?placed, apart := ?apart, path_waits := hready.inv.path_waits,
                      forward := ?forward, back := ?back, closed := fun x hx => hclosed x hx,
                      connected := ?connected, callees_first := ?callees_first }
  case placed =>
    intro x
    show x ∈ later.met ↔ x ∈ search.waiting ∨ x ∈ (later.components ++ [new ++ [name]]).flatten
    rw [hflatten, mem_append, hmem, h.inv.placed x]
    tauto
  case apart =>
    have hperm : (later.waiting ++ later.components.flatten).Perm
        (search.waiting ++ (later.components.flatten ++ (new ++ [name]))) := by
      rw [show later.waiting = new ++ [name] ++ search.waiting by simp [hwaiting],
        append_assoc]
      exact perm_append_comm.trans (by rw [append_assoc])
    rw [hflatten]
    exact hperm.nodup_iff.mp h.inv.apart
  case forward =>
    intro x hx y hy hle
    exact h.inv.forward x (hold x hx) y (hold y hy) hle
  case back =>
    intro y hy
    obtain ⟨x, hx, hle, hyx⟩ := hready.inv.back y hy
    refine ⟨x, hx, ?_, hyx⟩
    show later.number x ≤ later.number y
    rw [hnumber x (hready.inv.path_waits x hx), hnumber y hy]
    exact hle
  case connected =>
    intro component hcomponent x hx y
    rcases mem_append.mp hcomponent with hcomponent | hcomponent
    · exact h.inv.connected component hcomponent x hx y
    · -- The new component. Its members and the visited function reach each other.
      rw [mem_singleton.mp hcomponent] at hx ⊢
      rw [hmem] at hx ⊢
      obtain ⟨hnx, hxn⟩ := component_mutual hready h hx.1 hx.2
      constructor
      · intro hy
        obtain ⟨hny, hyn⟩ := component_mutual hready h hy.1 hy.2
        exact ⟨hxn.trans hny, hyn.trans hnx⟩
      · intro hxy
        exact component_maximal hready h hleast (hnx.trans hxy.1) (hxy.2.trans hxn)
  case callees_first =>
    intro before component hprefix x hx y hcall
    rcases prefix_concat_iff.mp hprefix with hlast | hprefix
    · obtain ⟨rfl, hnew⟩ := append_inj' hlast rfl
      obtain rfl := singleton_inj.mp hnew
      rw [hmem] at hx ⊢
      exact calls_of_component hready h hleast hx.1 hx.2 hcall
    · exact h.inv.callees_first before component hprefix x hx y hcall

theorem visited_of_eq (hleast : least = search.met.length) :
    Visited graph path name search least (later.complete name) := by
  have hext := extends_of_followed hready h
  obtain ⟨new, hwaiting, hcomplete⟩ := exists_component h
  rw [hcomplete]
  exact {
    inv := inv_complete hready h hleast hwaiting
    ext := ⟨hext.met, suffix_refl _, hext.components.trans (prefix_append _ _),
      fun x hx hnot => absurd hx hnot⟩
    met := h.inv.met_of_waiting (name_waits h)
    least_le := by omega
    found := fun hlt => by omega
    bounded := fun x hx hnot => absurd hx hnot }

end EndOfVisit

/-- A visit that may nest deep enough is made as it should be. -/
theorem visitFrom_visited (depth : Nat) {path : List String} {name : String} {search : Search}
    (hready : Ready graph path name search) (hdepth : graph.size ≤ search.met.length + depth) :
    Visited graph path name search (visitFrom graph depth name search).1
      (visitFrom graph depth name search).2 := by
  induction depth generalizing path name search with
  | zero =>
      -- All functions would have been met, and the one to visit has not.
      have := hready.inv.length_met_lt hready.known hready.fresh
      omega
  | succ depth ih =>
      have hentered : (search.enter name).met.length = search.met.length + 1 := by
        rw [met_enter hready.fresh, length_append, length_singleton]
      have hpath : ∀ x ∈ name :: path, graph.Reaches x name := by
        intro x hx
        rcases mem_cons.mp hx with rfl | hx
        · exact .refl
        · exact hready.path_reaches x hx
      have hfollowed : Followed graph (name :: path) name (graph.callsOf name) (search.enter name)
          search.met.length
          (follow graph (visitFrom graph depth) search.met.length (graph.callsOf name)
            (search.enter name)).1
          (follow graph (visitFrom graph depth) search.met.length (graph.callsOf name)
            (search.enter name)).2 :=
        follow_followed (graph.size - depth) (fun callee s hcallee hbound => ih hcallee (by omega))
          hpath (fun callee hmem hknown => ⟨hready.known, hknown, hmem⟩)
          (inv_enter hready.inv hready.known hready.fresh hready.path_reaches) (by omega) (by omega)
      rw [visitFrom, show search.numbers.size = search.met.length from
        (length_keys search.numbers).symm]
      dsimp only
      split
      · next hleast => exact visited_of_eq hready hfollowed hleast
      · next hleast =>
          have := hfollowed.least_le
          exact visited_of_lt hready hfollowed (by omega)

end Search

end ContractAudit.CallGraph
