import ContractAudit.Proofs.Parse.Clean.Forms
import ContractAudit.Proofs.Parse.Moved
import ContractAudit.Proofs.Parse.Nodes
import ContractAudit.Proofs.Token.Append

/-!
# Contracts one behind another

A text that parses without errors and ends its last line can be put in front of any other text. The
tokens of the first text are the same whatever follows, its forms are read without looking behind
the last closing parenthesis, and on the tokens of the second text the parser does what it does on
the text by itself.
-/

namespace ContractAudit

open Parse List State

variable {found : List (Option Form)} {result : ParseResult} {source : String}
  {lexemes : List Lexeme}

/-! ## The last token of a contract -/

theorem SpellForm.getLast? {form : Form} (h : SpellForm form lexemes) :
    lexemes.getLast? = some .rightParen := by
  have hparens (inner : List Lexeme) : (Lexeme.parens inner).getLast? = some .rightParen := by
    rw [Lexeme.parens, ← cons_append]
    exact getLast?_concat
  cases h <;> exact hparens _

theorem SpellForms.getLast? {forms} (h : SpellForms forms lexemes) :
    ∀ lexeme ∈ lexemes.getLast?, lexeme = .rightParen := by
  induction h with
  | nil => simp
  | cons form first rest lexemes hform _ ih =>
      intro lexeme hlast
      rw [getLast?_append, hform.getLast?] at hlast
      cases hrest : lexemes.getLast? with
      | none =>
          rw [hrest] at hlast
          exact (Option.some_inj.mp hlast).symm
      | some last =>
          rw [hrest] at hlast ih
          exact Option.some_inj.mp hlast ▸ ih last rfl

theorem endsClosed_of_parse (h : parse source = .ok result) (hclean : result.errors = []) :
    Scan.EndsClosed (tokenize source).dropLast := by
  have hspell := spellContract_of_parse h hclean
  intro token htoken
  have hlast : token.lexeme ∈ (lexemes (tokenize source).dropLast).getLast? := by
    rw [lexemes, getLast?_map, Option.mem_def.mp htoken]
    rfl
  have hkind : token.kind = .rightParen := congrArg Lexeme.kind (hspell.getLast? _ hlast)
  simp [hkind]

/-! ## The forms of a contract -/

namespace Parser

variable {s s' : State}

theorem forms_nextId (h : forms expr s = .done found s') (hclean : s'.errors = s.errors) :
    s'.nextId = s.nextId + ((found.filterMap id).flatMap Form.postorder).length := by
  have hmade := (forms_grown h).made.all hclean
  rwa [flatMap_map] at hmade

theorem forms_of_parseTokens {tokens} (h : parseTokens tokens = .ok result) :
    ∃ found state, forms expr (.ofTokens tokens) = .done found state ∧
      result.contract.body = found.filterMap id ∧ result.errors = state.errors := by
  obtain ⟨state, hrun, herrors⟩ := parseTokens_eq_ok.mp h
  obtain ⟨_, _, hpeek, hrun⟩ := bind_eq_done.mp hrun
  cases hpeek
  obtain ⟨found, s₁, hforms, hrun⟩ := bind_eq_done.mp hrun
  obtain ⟨_, _, hinfo, hrun⟩ := bind_eq_done.mp hrun
  cases hinfo
  obtain ⟨hcontract, rfl⟩ := Step.done.inj hrun
  exact ⟨found, s₁, hforms, by rw [← hcontract], herrors.symm⟩

theorem forms_of_parse (h : parse source = .ok result) :
    ∃ found state, forms expr (.ofTokens (tokenize source)) = .done found state ∧
      result.contract.body = found.filterMap id ∧ result.errors = state.errors :=
  forms_of_parseTokens h

theorem parse_of_forms (h : forms expr (.ofTokens (tokenize source)) = .done found s) :
    ∃ result, parse source = .ok result ∧ result.contract.body = found.filterMap id ∧
      result.errors = s.errors :=
  ⟨⟨_, s.errors⟩, parseTokens_eq_ok.mpr ⟨_, contract_of_forms h, rfl⟩, rfl, rfl⟩

end Parser

/-! ## Two texts -/

theorem Parse.State.elsewhere_of_end {s t : State} (hahead : s.ahead = [])
    (hnext : s.nextId = t.nextId) (herrors : t.errors = []) :
    s.elsewhere t s.nextId [] = { t with previous := s.previous } := by
  simp [elsewhere, hahead, hnext, herrors]

theorem ofTokens_append {first} (hend : first.toList.getLast? = some '\n')
    (hclosed : Scan.EndsClosed (tokenize first).dropLast) (nodes : Nat) (second : String) :
    ofTokens (tokenize (first ++ second)) =
      { (ofTokens (tokenize first)).elsewhere
          ((ofTokens (tokenize second)).move (.behind first nodes))
          (ofTokens (tokenize first)).nextId [] with
        previous := (ofTokens (tokenize (first ++ second))).previous } := by
  have htokens : tokenize (first ++ second) = (tokenize first).dropLast ++
          (tokenize second).dropLast.map (Token.move (.behind first nodes)) ++
        [Token.move (.behind first nodes)
          ⟨.endOfInput, "", "", Location.start.after second.toList⟩] := by
    rw [tokenize_append hend hclosed nodes, append_assoc]
    conv_lhs => rw [tokenize_eq second]
    rw [map_append, map_singleton]
  have hboth : ∀ token ∈ (tokenize first).dropLast ++
      (tokenize second).dropLast.map (Token.move (.behind first nodes)),
      token.kind.isGap = false ∧ token.kind ≠ .endOfInput := by
    intro token htoken
    rcases mem_append.mp htoken with htoken | htoken
    · exact (tokenize_lexical htoken).2
    · obtain ⟨own, hown, rfl⟩ := mem_map.mp htoken
      exact (tokenize_lexical hown).2
  rw [htokens, ofTokens_concat hboth rfl]
  simp [ofTokens_tokenize_eq, elsewhere, move]

/-- A contract text in front of another text. Where the first parses without errors and ends its
last line, the parse of the two gives the forms of the first and those of the second, and the errors
of the second. Lines and offsets of the second text are moved behind the first one, and its nodes
are numbered behind those of the first. -/
theorem parse_append {first second : String} {a b : ParseResult}
    (hend : first.toList.getLast? = some '\n') (ha : parse first = .ok a) (hclean : a.errors = [])
    (hb : parse second = .ok b) :
    ∃ result, parse (first ++ second) = .ok result ∧
      result.contract.body = a.contract.body ++ b.contract.body.map
        (Form.move (.behind first (a.contract.body.flatMap Form.postorder).length)) ∧
      result.errors = b.errors.map
        (Diagnostic.move (.behind first (a.contract.body.flatMap Form.postorder).length)) := by
  have hclosed := endsClosed_of_parse ha hclean
  obtain ⟨found, s, hfound, hbody, herrors⟩ := Parser.forms_of_parse ha
  obtain ⟨later, t, hlater, hbodyLater, herrorsLater⟩ := Parser.forms_of_parse hb
  rw [herrors] at hclean
  have hnext := Parser.forms_nextId hfound hclean
  rw [← hbody] at hnext
  generalize (a.contract.body.flatMap Form.postorder).length = nodes at hnext ⊢
  -- Behind the forms of the first text the parser is where it starts on the second one, moved.
  have hmoved : Parser.forms Parser.expr ((State.ofTokens (tokenize second)).move
      (.behind first nodes)) = _ := Parser.forms_moves _
  rw [hlater] at hmoved
  obtain ⟨t', hrest, herrorsRest⟩ := Parser.forms_previous hmoved s.previous
  rw [← State.elsewhere_of_end (Parser.forms_end hfound) hnext rfl] at hrest
  have hboth := (Parser.forms_spelled _ (lexical_ofTokens first) hfound hclean).2 _ _ hrest
  obtain ⟨t'', hwhole, herrorsWhole⟩ := Parser.forms_previous hboth
    (State.ofTokens (tokenize (first ++ second))).previous
  rw [← ofTokens_append hend hclosed] at hwhole
  obtain ⟨result, hresult, hbodyResult, herrorsResult⟩ := Parser.parse_of_forms hwhole
  refine ⟨result, hresult, ?_, ?_⟩
  · rw [hbodyResult, List.filterMap_append, hbody, hbodyLater, List.filterMap_map,
      List.map_filterMap]
    rfl
  · rw [herrorsResult, herrorsWhole, herrorsRest, herrorsLater]
    rfl

def matched : String :=
  "(use-trait t .a.b)\n(define-private (f (x uint))\n  (match x (ok v) .c none u1)) ; \"\n"

def malformed : String :=
  ".d (define-constant e\n(define-data-var v uint u1)\n(begin \"\n"

theorem parse_append_malformed : ∃ result, parse (matched ++ malformed) = .ok result ∧
      result.contract.body.map (·.info.id) = [1, 11, 13] ∧
      result.errors.map (·.location) = [⟨4, 1, 83⟩, ⟨5, 2, 106⟩, ⟨6, 2, 134⟩] := by
  obtain ⟨a, ha, hclean, hforms, hnodes⟩ : ∃ result, parse matched = .ok result ∧
      result.errors = [] ∧ result.contract.body.map (·.info.id) = [1, 11] ∧
      (result.contract.body.flatMap Form.postorder).length = 12 :=
    exists_parse rfl (by decide +kernel)
  obtain ⟨b, hb, hothers, hplaces⟩ : ∃ result, parse malformed = .ok result ∧
      result.contract.body.map (·.info.id) = [1] ∧
      result.errors.map (·.location) = [⟨1, 1, 0⟩, ⟨2, 2, 23⟩, ⟨3, 2, 51⟩] :=
    exists_parse rfl (by decide +kernel)
  obtain ⟨result, hresult, hbody, herrors⟩ :=
    parse_append (by decide) ha hclean hb
  rw [hnodes] at hbody herrors
  refine ⟨result, hresult, ?_, ?_⟩
  · have hinfo (d : Displacement) (form : Form) :
        (form.move d).info.id = form.info.id + d.nodes := by
      cases form <;> rfl
    have hmoved : (b.contract.body.map (Form.move (.behind matched 12))).map (·.info.id) =
        (b.contract.body.map (·.info.id)).map (· + 12) := by
      simp [hinfo, Displacement.behind]
    rw [hbody, List.map_append, hforms, hmoved, hothers]
    rfl
  · have hmoved : (b.errors.map (Diagnostic.move (.behind matched 12))).map (·.location) =
        (b.errors.map (·.location)).map (Location.move (.behind matched 12)) := by
      simp [Diagnostic.move]
    rw [herrors, hmoved, hplaces]
    decide

end ContractAudit
