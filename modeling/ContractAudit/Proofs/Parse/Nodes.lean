import ContractAudit.Proofs.Parse.Growth.Grammar

/-!
# The nodes that a parse makes

A node gets its number when it is complete, so the nodes of what a parser reads have increasing
numbers in post-order, and no number is used twice. A parser drops what it has read only after an
error, so without errors no number is left out either. A name that stands as an expression starts
where a token starts that no other expression is read from. `Made` says all this of the nodes made
between two states, and the trees that are read between two states are made of such nodes.
-/

namespace ContractAudit

open Parse List Node

variable {result : ParseResult} {tokens : List Token}

def identifierPlace? (identifier : NodeInfo × String) : Option Location :=
  if identifier.2 = placeholder then none else some identifier.1.span.start

def Node.namePlace? (node : Node) : Option Location :=
  node.identifier?.bind identifierPlace?

/-- Nodes made between two states. -/
structure Made (s s' : State) (nodes : List Node) : Prop where
  onward : s.Onward s'
  numbers : (nodes.map (·.info.id)).Sublist (List.range' s.nextId (s'.nextId - s.nextId))
  places : ∃ used, s.ahead = used ++ s'.ahead ∧
    (nodes.filterMap namePlace?).Sublist (used.map Token.location)
  all : s'.errors = s.errors → s'.nextId = s.nextId + nodes.length

namespace Made

variable {s s₁ s' : State} {first second : List Node}

theorem of_onward (h : s.Onward s') (hall : s'.errors = s.errors → s'.nextId = s.nextId) :
    Made s s' [] := by
  obtain ⟨used, hused⟩ := h.ahead
  exact ⟨h, nil_sublist _, ⟨used, hused.symm, nil_sublist _⟩, hall⟩

theorem append (hfirst : Made s s₁ first) (hsecond : Made s₁ s' second) :
    Made s s' (first ++ second) where
  onward := hfirst.onward.trans hsecond.onward
  numbers := by
    -- The second part starts with the number at which the first one ends.
    have hle := hfirst.onward.nextId
    have hle' := hsecond.onward.nextId
    have hcount : s'.nextId - s.nextId = (s₁.nextId - s.nextId) + (s'.nextId - s₁.nextId) := by
      omega
    have hstart : s.nextId + (s₁.nextId - s.nextId) = s₁.nextId := by omega
    rw [map_append, hcount, ← range'_append_1, hstart]
    exact hfirst.numbers.append hsecond.numbers
  places := by
    obtain ⟨used, hahead, hplaces⟩ := hfirst.places
    obtain ⟨used', hahead', hplaces'⟩ := hsecond.places
    refine ⟨used ++ used', by rw [hahead, hahead', append_assoc], ?_⟩
    rw [filterMap_append, map_append]
    exact hplaces.append hplaces'
  all := by
    intro hclean
    obtain ⟨hfirstClean, hsecondClean⟩ := hfirst.onward.errors_eq hsecond.onward hclean
    rw [hsecond.all hsecondClean, hfirst.all hfirstClean, length_append, Nat.add_assoc]

/-- A node that stands before another one has a smaller number. -/
theorem increasing (h : Made s s' first) : (first.map (·.info.id)).Pairwise (· < ·) :=
  .sublist h.numbers pairwise_lt_range'

/-- Without errors the nodes have all the numbers, in order. -/
theorem map_id (h : Made s s' first) (hclean : s'.errors = s.errors) :
    first.map (·.info.id) = List.range' s.nextId first.length := by
  have hcount : s'.nextId - s.nextId = first.length := by
    have := h.all hclean
    omega
  exact (hcount ▸ h.numbers).eq_of_length (by simp)

end Made

theorem made_number {s : State} {node : Node} (hid : node.info.id = s.nextId)
    (hplace : node.namePlace? = none) : Made s { s with nextId := s.nextId + 1 } [node] :=
  ⟨.number s, by simp [hid], ⟨[], rfl, by simp [hplace]⟩, fun _ => rfl⟩

theorem namePlace?_sublist (info : NodeInfo) (name : String) :
    ([expr (.identifier info name)].filterMap namePlace?).Sublist [info.span.start] := by
  by_cases hname : name = placeholder <;>
    simp [namePlace?, identifier?, identifierPlace?, hname]

theorem made_name {s s' : State} {info name} (h : Made s s' [])
    (hreads : s.Reads s') (hstart : info.span.start = s.current.location)
    (hid : info.id = s'.nextId) :
    Made s { s' with nextId := s'.nextId + 1 } [.expr (.identifier info name)] := by
  obtain ⟨hahead, honward⟩ := hreads
  obtain ⟨token, rest, hcons⟩ := exists_cons_of_ne_nil hahead
  obtain ⟨used, hused⟩ := honward.ahead
  have hle := h.onward.nextId
  refine ⟨h.onward.trans (.number s'), ?_, ⟨token :: used, ?_, ?_⟩, fun hclean => ?_⟩
  · simp only [map_singleton, singleton_sublist, mem_range'_1]
    show s.nextId ≤ info.id ∧ info.id < _
    omega
  · rw [hcons, cons_append, hused, State.advance_eq hcons]
  · refine (namePlace?_sublist info name).trans ?_
    rw [hstart, State.current_eq hcons, map_cons]
    exact (nil_sublist _).cons_cons _
  · exact congrArg (· + 1) (h.all hclean)

theorem Grown.made {levels : Nat} {s s' : State} {row} (h : Grown levels s s' row) :
    Made s s' (row.flatMap postorder) := by
  induction h with
  | none honward hkept => exact .of_onward honward hkept
  | append _ _ ih ih' =>
      rw [flatMap_append]
      exact ih.append ih'
  | @node _ _ s s₁ s' node _ hparts _ hinfo hhead _ ih ih' =>
      rw [flatMap_singleton, postorder_eq]
      have hall := ih.append ih'
      by_cases hplace : node.namePlace? = .none
      · exact hall.append (made_number (congrArg NodeInfo.id hinfo) hplace)
      · -- A node that has a place as a name is a name, and has no parts.
        unfold namePlace? identifier? at hplace
        split at hplace
        · have hreads := (hhead.resolve_left (by simp [hasHead])).onward hparts.onward
          exact made_name hall hreads (congrArg (·.span.start) hinfo) (congrArg (·.id) hinfo)
        · exact absurd rfl hplace
  | placeholder location _ => exact made_number rfl rfl
  | absent _ _ ih => exact (made_number rfl rfl).append ih

theorem made_of_parseTokens (h : parseTokens tokens = .ok result) :
    ∃ state, state.errors = result.errors ∧
      Made (.ofTokens tokens) state (contract result.contract).postorder := by
  obtain ⟨state, hrun, herrors⟩ := parseTokens_eq_ok.mp h
  obtain ⟨s₁, hgrown, hinfo, rfl⟩ := Parser.contract_grown hrun
  refine ⟨_, herrors, ?_⟩
  rw [postorder_eq]
  exact hgrown.made.append (made_number (congrArg NodeInfo.id hinfo) rfl)

/-- The nodes of a contract that a parse gives have different numbers, and the names among them
start where different tokens do. -/
theorem parseTokens_made (h : parseTokens tokens = .ok result) :
    (result.contract.postorder.map (·.info.id)).Nodup ∧
      (result.contract.postorder.filterMap namePlace?).Sublist
        (tokens.map Token.location) := by
  obtain ⟨state, _, hmade⟩ := made_of_parseTokens h
  obtain ⟨used, hahead, hplaces⟩ := hmade.places
  refine ⟨hmade.increasing.imp Nat.ne_of_lt, hplaces.trans (.map _ ?_)⟩
  have hused : used.Sublist (Parse.State.ofTokens tokens).ahead := by
    rw [hahead]
    exact sublist_append_left _ _
  rw [ahead_ofTokens] at hused
  exact hused.trans (filter_sublist.trans (takeWhile_sublist _))

/-- The numbers of the nodes are a key. No two nodes of a contract that a parse gives have the same
number, a node has a larger one than its parts, parts of one node have increasing ones, and the
contract has the largest. Without errors the numbers are those from 0 on, in post-order. -/
theorem parseTokens_numbers {tokens : List Token} {result : ParseResult}
    (h : parseTokens tokens = .ok result) :
    ((Node.contract result.contract).postorder.map (·.info.id)).Nodup ∧
      (∀ node, (Node.contract result.contract).Within node →
        (∀ part ∈ node.parts, part.info.id < node.info.id) ∧
          (node.parts.map (·.info.id)).Pairwise (· < ·) ∧
          (node = .contract result.contract ∨ node.info.id < result.contract.info.id)) ∧
      (result.errors = [] → (Node.contract result.contract).postorder.map (·.info.id) =
          List.range (Node.contract result.contract).postorder.length) := by
  obtain ⟨state, herrors, hmade⟩ := made_of_parseTokens h
  have hincreasing := hmade.increasing
  refine ⟨hincreasing.imp Nat.ne_of_lt, fun node hnode => ?_, fun hclean => ?_⟩
  · -- The parts of a node and the node itself stand in the listing one behind the other.
    have hparts := hincreasing.sublist ((node.parts_sublist.trans hnode.postorder_sublist).map _)
    rw [List.map_append, List.pairwise_append] at hparts
    obtain ⟨hsiblings, _, hbelow⟩ := hparts
    refine ⟨fun part hpart => ?_, hsiblings, ?_⟩
    · exact hbelow _ (List.mem_map_of_mem hpart) _ (List.mem_singleton.mpr rfl)
    · have hmem := Node.mem_postorder.mpr hnode
      rw [Node.postorder_eq, List.map_append, List.pairwise_append] at hincreasing
      rw [Node.postorder_eq, List.mem_append, List.mem_singleton] at hmem
      rcases hmem with hmem | rfl
      · exact .inr (hincreasing.2.2 _ (List.mem_map_of_mem hmem) _ (List.mem_singleton.mpr rfl))
      · exact .inl rfl
  · rw [hmade.map_id (herrors.trans hclean), List.range_eq_range']
    rfl

def numbered : String :=
  "(use-trait t .a.b)\n(define-public (f (x uint)) (match (g x) (ok v) \x7bk: v\x7d none 1))"

theorem parseTokens_numbers_traits : ∃ result, parseTokens (tokenize numbered) = .ok result ∧
      (Node.contract result.contract).postorder.map (·.info.id) = List.range 16 := by
  obtain ⟨result, hparse, hclean, hlength⟩ : ∃ result, parse numbered = .ok result ∧
      result.errors = [] ∧ result.contract.postorder.length = 16 :=
    exists_parse rfl (by decide +kernel)
  exact ⟨result, hparse, ((parseTokens_numbers hparse).2.2 hclean).trans
    (congrArg List.range hlength)⟩

end ContractAudit
