import ContractAudit.Proofs.Parse.FormNames

/-!
# Spans

The tokens of a text stand one behind the other, and a node reaches from the start of its first
token to the end of the token read last. `InRow` says of trees that their spans nest and that they
stand one behind the other, and `Laid` that such trees lie in the text read between two states: the
trees that are read without errors do.
-/

namespace ContractAudit

open Parse List Token State

variable (source : String) (token : Token)

/-! ## Nodes in a row -/

namespace Node

def start (node : Node) : Int :=
  node.info.span.start.offset

def finish (node : Node) : Int :=
  node.info.span.finish.offset

/-- A node starts no later than it ends, its parts lie within it, and they stand in their order
without overlapping. -/
structure Nests (node : Node) : Prop where
  forward : node.start ≤ node.finish
  within : ∀ part ∈ node.parts, node.start ≤ part.start ∧ part.finish ≤ node.finish
  inOrder : node.parts.Pairwise fun first second => first.finish ≤ second.start

/-- Trees that nest and stand one behind the other between two offsets. -/
structure InRow (low high : Int) (nodes : List Node) : Prop where
  nests : ∀ node ∈ nodes, ∀ inner, node.Within inner → inner.Nests
  within : ∀ node ∈ nodes, low ≤ node.start ∧ node.finish ≤ high
  inOrder : nodes.Pairwise fun first second => first.finish ≤ second.start

namespace InRow

variable {low low' high high' : Int} {node : Node} {nodes first second : List Node}

theorem nil (low high : Int) : InRow low high [] :=
  ⟨by simp, by simp, .nil⟩

theorem mono (h : InRow low high nodes) (hlow : low' ≤ low) (hhigh : high ≤ high') :
    InRow low' high' nodes where
  nests := h.nests
  within := fun node hnode => by
    have := h.within node hnode
    omega
  inOrder := h.inOrder

theorem append (hfirst : InRow low high first) (hsecond : InRow low' high' second)
    (hbetween : high ≤ low') (hlow : low ≤ low') (hhigh : high ≤ high') :
    InRow low high' (first ++ second) := by
  have hfirst' := hfirst.mono (Int.le_refl _) hhigh
  have hsecond' := hsecond.mono hlow (Int.le_refl _)
  refine ⟨fun node hnode => ?_, fun node hnode => ?_, pairwise_append.mpr
    ⟨hfirst.inOrder, hsecond.inOrder, fun node hnode later hlater => ?_⟩⟩
  · exact (mem_append.mp hnode).elim (hfirst.nests node) (hsecond.nests node)
  · exact (mem_append.mp hnode).elim (hfirst'.within node) (hsecond'.within node)
  · have := (hfirst.within node hnode).2
    have := (hsecond.within later hlater).1
    omega

theorem low_le_high (h : InRow low high nodes) (hnode : node ∈ nodes) : low ≤ high := by
  have hwithin := h.within node hnode
  have hforward := (h.nests node hnode node (.root node)).forward
  omega

theorem singleton {start finish} (hspan : node.info.span = ⟨start, finish⟩)
    (hparts : InRow start.offset finish.offset node.parts)
    (hforward : start.offset ≤ finish.offset) : InRow start.offset finish.offset [node] := by
  have hstart : node.start = start.offset := by rw [Node.start, hspan]
  have hfinish : node.finish = finish.offset := by rw [Node.finish, hspan]
  refine ⟨fun other hother inner hinner => ?_, fun other hother => ?_, pairwise_singleton _ _⟩
  · rw [mem_singleton.mp hother] at hinner
    cases hinner with
    | root =>
        refine ⟨?_, ?_, hparts.inOrder⟩
        · rwa [hstart, hfinish]
        · rw [hstart, hfinish]
          exact hparts.within
    | inPart hpart hinner => exact hparts.nests _ hpart inner hinner
  · rw [mem_singleton.mp hother, hstart, hfinish]
    exact ⟨Int.le_refl _, Int.le_refl _⟩

end InRow

end Node

open Node (InRow)

/-! ## Tokens in a row -/

theorem Token.location_le_finish : token.location.offset ≤ token.finish.offset := by
  unfold finish
  split
  · exact Int.le_refl _
  · exact Int.le_add_of_nonneg_right (Int.natCast_nonneg _)

theorem Token.finish_le : token.finish.offset ≤ token.location.offset + token.raw.length := by
  unfold finish
  split
  · exact Int.le_add_of_nonneg_right (Int.natCast_nonneg _)
  · exact Int.le_refl _

def Token.emptyAt (location : Location) : Token :=
  ⟨.whitespace, "", "", location⟩

theorem Token.finish_emptyAt (location : Location) :
    (emptyAt location).finish.offset = location.offset := by
  simp [finish, emptyAt, Location.right]

namespace Parse.State

variable {s s' : State}

def nextStart (s : State) : Int :=
  s.current.location.offset

def lastEnd (s : State) : Int :=
  s.previous.finish.offset

/-- The token read last and the unread ones stand one behind the other, and the end of input takes
up no text. -/
structure Ordered (s : State) : Prop where
  tokens : (s.previous :: (s.ahead ++ [s.finish])).Pairwise fun first second =>
    first.finish.offset ≤ second.location.offset
  finish : s.finish.finish.offset ≤ s.finish.location.offset

theorem current_mem (s : State) : s.current ∈ s.ahead ++ [s.finish] := by
  cases hahead : s.ahead with
  | nil => simp [current_headD, hahead]
  | cons token rest => simp [current_eq hahead]

namespace Ordered

theorem lastEnd_le (h : s.Ordered) : s.lastEnd ≤ s.nextStart :=
  rel_of_pairwise_cons h.tokens s.current_mem

theorem nextStart_le_advance (h : s.ahead ≠ []) : s.nextStart ≤ s.advance.lastEnd := by
  obtain ⟨token, rest, hahead⟩ := exists_cons_of_ne_nil h
  rw [nextStart, lastEnd, current_eq hahead, advance_eq hahead]
  exact token.location_le_finish

theorem suffix_getLastD (previous : Token) (used rest : List Token) :
    used.getLastD previous :: rest <:+ previous :: (used ++ rest) := by
  induction used generalizing previous with
  | nil => exact suffix_refl _
  | cons token used ih =>
      rw [getLastD_cons, cons_append]
      exact (ih token).trans (suffix_cons _ _)

theorem of_onward (h : s.Ordered) (honward : s.Onward s') : s'.Ordered := by
  obtain ⟨used, hahead, hlast⟩ := honward.passes
  refine ⟨?_, honward.finish ▸ h.finish⟩
  rw [honward.finish]
  rcases hlast with hlast | ⟨hnil, hlast⟩
  · have htokens := h.tokens
    rw [hahead, append_assoc] at htokens
    rw [hlast]
    exact htokens.sublist (suffix_getLastD _ _ _).sublist
  · rw [hnil, hlast, nil_append]
    exact pairwise_pair.mpr h.finish

theorem lastEnd_mono (h : s.Ordered) (honward : s.Onward s') : s.lastEnd ≤ s'.lastEnd := by
  have hlater {token : Token} (htoken : token ∈ s.ahead ++ [s.finish]) :
      s.lastEnd ≤ token.finish.offset :=
    Int.le_trans (rel_of_pairwise_cons h.tokens htoken) token.location_le_finish
  obtain ⟨used, hahead, hlast⟩ := honward.passes
  show s.lastEnd ≤ s'.previous.finish.offset
  rcases hlast with hlast | ⟨_, hlast⟩
  · have hmem : s'.previous ∈ s.previous :: used := hlast ▸ getLastD_mem_cons
    rcases mem_cons.mp hmem with heq | hused
    · rw [heq]
      exact Int.le_refl _
    · exact hlater (mem_append_left _ (hahead ▸ mem_append_left _ hused))
  · exact hlast ▸ hlater (by simp)

theorem nextStart_mono (h : s.Ordered) (honward : s.Onward s') : s.nextStart ≤ s'.nextStart := by
  cases hahead : s.ahead with
  | nil =>
      have hnil : s'.ahead = [] := suffix_nil.mp (hahead ▸ honward.ahead)
      refine Int.le_of_eq ?_
      rw [nextStart, nextStart, current_headD, current_headD, hahead, hnil, honward.finish]
  | cons token rest =>
      have htokens := (pairwise_cons.mp h.tokens).2
      rw [hahead, cons_append] at htokens
      rw [nextStart, current_eq hahead]
      rcases suffix_cons_iff.mp (hahead ▸ honward.ahead) with hsame | hsuffix
      · refine Int.le_of_eq ?_
        rw [nextStart, current_eq hsame]
      · have hcurrent := mem_append.mp (honward.finish ▸ s'.current_mem)
        have hmem := mem_append.mpr (hcurrent.imp_left (hsuffix.subset ·))
        exact Int.le_trans token.location_le_finish (rel_of_pairwise_cons htokens hmem)

end Ordered

end Parse.State

namespace Parser

variable {s s₁ s' : State} {row : List Node}

/-- Nodes that lie in the text read between two states. -/
structure Laid (s s' : State) (nodes : List Node) : Prop where
  onward : s.Onward s'
  inRow : s.Ordered → InRow s.nextStart s'.lastEnd nodes

theorem Laid.append {first second} (hfirst : Laid s s₁ first)
    (hsecond : Laid s₁ s' second) : Laid s s' (first ++ second) where
  onward := hfirst.onward.trans hsecond.onward
  inRow := fun hs => by
    have hs₁ := hs.of_onward hfirst.onward
    exact (hfirst.inRow hs).append (hsecond.inRow hs₁) hs₁.lastEnd_le
      (hs.nextStart_mono hfirst.onward) (hs₁.lastEnd_mono hsecond.onward)

theorem Laid.node {node : Node} (h : Laid s s' node.parts) (hclean : s'.errors = [])
    (hspan : node.info.span = ⟨s.current.location, s'.previous.finish⟩)
    (hopened : s.Opened s' node.parts) : Laid s { s' with nextId := s'.nextId + 1 } [node] := by
  refine ⟨h.onward.trans (.number s'), fun hs => .singleton hspan (h.inRow hs) ?_⟩
  rcases hopened with ⟨hahead, honward⟩ | hsome | herrors
  · calc s.nextStart
      _ ≤ s.advance.lastEnd := State.Ordered.nextStart_le_advance hahead
      _ ≤ s'.lastEnd := (hs.of_onward (.advance s)).lastEnd_mono honward
  · obtain ⟨part, hpart⟩ := exists_mem_of_ne_nil _ hsome
    exact (h.inRow hs).low_le_high hpart
  · exact absurd hclean herrors

theorem Laid.absent {info} (h : Laid { s with nextId := s.nextId + 1 } s' row)
    (hsome : row ≠ []) (hinfo : info.span = .point s.current.location) :
    Laid s s' (.pattern (.none info) :: row) := by
  refine ⟨(State.Onward.number s).trans h.onward, fun hs => ?_⟩
  have hrow : InRow s.nextStart s'.lastEnd row := h.inRow (hs.of_onward (.number s))
  have habsent : InRow s.nextStart s.nextStart [.pattern (.none info)] :=
    .singleton hinfo (.nil _ _) (Int.le_refl _)
  obtain ⟨node, hnode⟩ := exists_mem_of_ne_nil _ hsome
  exact habsent.append hrow (Int.le_refl _) (Int.le_refl _) (hrow.low_le_high hnode)

/-- The trees that are read without errors lie in the text read. -/
theorem laid_of_grown {levels : Nat} (h : Grown levels s s' row) (hclean : s'.errors = []) :
    Laid s s' row := by
  induction h with
  | none honward _ => exact ⟨honward, fun _ => .nil _ _⟩
  | append _ _ ih ih' =>
      have hlater := ih' hclean
      exact (ih (clean_of_onward hlater.onward hclean)).append hlater
  | node _ _ _ hinfo _ hopened ih ih' =>
      have hlater := ih' hclean
      exact ((ih (clean_of_onward hlater.onward hclean)).append hlater).node hclean
        (congrArg NodeInfo.span hinfo) hopened
  | placeholder _ herrors => exact absurd hclean herrors
  | absent _ hsome ih => exact (ih hclean).absent hsome rfl

theorem ordered_at_start (htokens : (s.ahead ++ [s.finish]).Pairwise fun first second =>
      first.finish.offset ≤ second.location.offset)
    (hfinish : s.finish.finish.offset ≤ s.finish.location.offset) :
    ({ s with previous := .emptyAt s.current.location } : State).Ordered := by
  refine ⟨pairwise_cons.mpr ⟨fun token htoken => ?_, htokens⟩, hfinish⟩
  rw [finish_emptyAt]
  cases hahead : s.ahead with
  | nil =>
      simp only [hahead, nil_append, mem_singleton] at htoken
      simp [current_headD, hahead, htoken]
  | cons first rest =>
      simp only [hahead, cons_append, mem_cons] at htoken htokens
      rw [current_eq hahead]
      rcases htoken with rfl | htoken
      · exact Int.le_refl _
      · exact Int.le_trans first.location_le_finish (rel_of_pairwise_cons htokens htoken)

theorem forms_inRow {found} (h : forms expr s = .done found s') (hclean : s'.errors = [])
    (htokens : (s.ahead ++ [s.finish]).Pairwise fun first second =>
      first.finish.offset ≤ second.location.offset)
    (hfinish : s.finish.finish.offset ≤ s.finish.location.offset)
    (hprevious : s.previous = s.current) :
    s.nextStart ≤ s'.lastEnd ∧ InRow s.nextStart s'.lastEnd ((found.filterMap id).map .form) := by
  by_cases hahead : s.ahead = []
  · rw [forms_nil hahead] at h
    cases h
    refine ⟨?_, .nil _ _⟩
    rw [nextStart, lastEnd, hprevious]
    exact s.current.location_le_finish
  · have hs := ordered_at_start htokens hfinish
    rw [← forms_previous_eq hahead (.emptyAt s.current.location)] at h
    have hlaid := laid_of_grown (forms_grown h) hclean
    refine ⟨Int.le_trans ?_ (hs.lastEnd_mono hlaid.onward), hlaid.inRow hs⟩
    exact Int.le_of_eq (finish_emptyAt _).symm

end Parser

/-! ## Texts -/

theorem tokenize_inOrder : (tokenize source).Pairwise fun first second =>
      first.finish.offset ≤ second.location.offset :=
  (tokenize_ordered source).imp fun h => Int.le_trans (finish_le _) h

theorem start_of_tokenize :
    ∃ s : State, .ofTokens (tokenize source) = s ∧ s.ahead ++ [s.finish] = tokenize source ∧
      s.finish.raw = "" ∧ s.previous = s.current := by
  refine ⟨_, ofTokens_tokenize_eq source, (tokenize_eq source).symm, rfl, ?_⟩
  rw [State.current_headD]

/-- In a contract that is read without errors the spans nest: no node ends before it starts, the
nodes right below a node lie within it, and each of them ends before the next one starts. Its forms
have different spans. -/
theorem parse_spans_nest {source : String} {result : ParseResult} (h : parse source = .ok result)
    (hclean : result.errors = []) :
    (∀ node, (Node.contract result.contract).Within node → node.Nests) ∧
      (result.contract.body.map (·.info.span)).Nodup := by
  refine ⟨?_, nodup_formSpans h⟩
  obtain ⟨state, hrun, _⟩ := parseTokens_eq_ok.mp h
  obtain ⟨found, s', hforms, _, herrors⟩ := Parser.forms_of_parse h
  obtain ⟨s, hstart, htokens, hfinish, hprevious⟩ := start_of_tokenize source
  rw [hstart] at hrun hforms
  have hend := s.finish.finish_le
  rw [hfinish] at hend
  obtain ⟨hforward, hrow⟩ := Parser.forms_inRow hforms (herrors ▸ hclean)
    (htokens ▸ tokenize_inOrder source) (by simpa using hend) hprevious
  rw [Parser.contract_of_forms hforms] at hrun
  obtain ⟨hcontract, _⟩ := Step.done.inj hrun
  have hsingle : Node.InRow s.nextStart s'.lastEnd [.contract result.contract] := by
    refine .singleton (by rw [← hcontract]; rfl) ?_ hforward
    rw [← hcontract]
    exact hrow
  exact hsingle.nests _ (List.mem_singleton.mpr rfl)

def layered : String :=
  "(use-trait t .a.b)\n(define-constant c \"two\nlines\")\n" ++
    "(define-public (f (x uint)) (match (g x) (ok v) \x7bk: v\x7d (h c)))"

theorem parse_spans_nest_layered : ∃ result, parse layered = .ok result ∧ result.errors = [] ∧
      result.contract.postorder.length = 19 ∧
      (∀ node, (Node.contract result.contract).Within node → node.Nests) ∧
      (result.contract.body.map (·.info.span)).Nodup := by
  obtain ⟨result, hparse, hclean, hlength⟩ : ∃ result, parse layered = .ok result ∧
      result.errors = [] ∧ result.contract.postorder.length = 19 :=
    exists_parse (append_eq_ofList rfl rfl) (by decide +kernel)
  exact ⟨result, hparse, hclean, hlength, parse_spans_nest hparse hclean⟩

end ContractAudit
