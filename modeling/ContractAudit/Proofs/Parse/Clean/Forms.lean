import ContractAudit.Proofs.Parse.Clean.Expressions
import ContractAudit.Proofs.Parse.Uninterrupted

/-!
# Contracts read without errors

A form that is read without errors ends with its own closing parenthesis, so it is read in the same
way whatever follows it, and the parse goes on right behind it. It starts with a definition, so that
the parse gets to the end of the tokens: every form takes up at least one token.
-/

namespace ContractAudit

open Parse List Form

/-! ## Agreement with itself -/

theorem agree_self {α : Type} {same} (h : ∀ x, same x x = true) (xs : List α) :
    agree same xs xs = true := by
  induction xs with
  | nil => rfl
  | cons x rest ih =>
      simp only [agree, decide_true, Bool.true_and] at ih ⊢
      simp [h, ih]

mutual

theorem TypeSpec.same_self : ∀ spec : TypeSpec, spec.same spec = true
  | .named _ _ params => by simp [TypeSpec.same, TypeSpec.sameParams_self params]
  | .tuple _ fields => by simp [TypeSpec.same, TypeSpec.sameFields_self fields]

theorem TypeSpec.sameParams_self : ∀ params, TypeSpec.sameParams params params = true
  | [] => rfl
  | .size _ :: rest => by simp [TypeSpec.sameParams, TypeSpec.sameParams_self rest]
  | .type spec :: rest => by
      simp [TypeSpec.sameParams, TypeSpec.same_self spec, TypeSpec.sameParams_self rest]

theorem TypeSpec.sameFields_self : ∀ fields, TypeSpec.sameFields fields fields = true
  | [] => rfl
  | (_, spec) :: rest => by
      simp [TypeSpec.sameFields, TypeSpec.same_self spec, TypeSpec.sameFields_self rest]

end

theorem Parameter.same_self (parameter : Parameter) : parameter.same parameter = true := by
  simp [Parameter.same, TypeSpec.same_self]

theorem TraitFunction.same_self (function : TraitFunction) : function.same function = true := by
  simp [TraitFunction.same, TypeSpec.same_self, agree_self TypeSpec.same_self]

namespace Parser

open State Lexeme

variable {numbered : Prop} {levels : Nat} {given keep : State → Prop} {s s' : State}
  {found : List (Option Form)}

/-! ## Signatures -/

theorem parameter_follows : FollowsWhen numbered (·.sees .leftParen = true) Anchored
    (Same (Prepends SpellParameters)) parameter parameter := by
  refine advance_open_follows.bind_same fun _ => (expectName_follows _).bind_same fun name =>
    typeSpec_follows.bind_same fun type => (span_blind fun span => ?_).close
  rintro first htype _ ⟨hname, rfl⟩ _ rfl
  refine ⟨rfl, rfl, fun rest lexemes hrest => ?_⟩
  simpa [parens] using SpellParameters.cons name type span first rest lexemes hname htype hrest

theorem traitFunction_follows : FollowsWhen numbered (·.sees .leftParen = true) Anchored
    (Same (Prepends SpellTraitFunctions)) traitFunction traitFunction := by
  have htypes : FollowsWhen numbered (fun _ => True) Closing (Same SpellTypes)
      (repeatWhile State.inBody typeSpec) (repeatWhile State.inBody typeSpec) := by
    refine repeatInBody_follows (lists_same .nil) ((typeSpec_follows.when fun _ h => h).imp ?_)
    rintro type used _ _ ⟨rfl, rfl, htype⟩
    exact ⟨rfl, rfl, fun rest lexemes hrest => .cons _ used rest lexemes htype hrest⟩
  refine advance_open_follows.bind_same fun _ => (expectName_follows _).bind_same fun name =>
    (parenthesized_follows _ _ htypes).bind fun _ _ =>
      typeSpec_follows.bind_same fun returnType => (span_blind fun span => ?_).close
  rintro result hreturn _ _ ⟨args, rfl, rfl, rfl, hargs⟩ _ ⟨hname, rfl⟩ _ rfl
  refine ⟨rfl, rfl, fun rest lexemes hrest => ?_⟩
  simpa [parens] using SpellTraitFunctions.cons name _ args returnType result span rest
    lexemes hname hargs hreturn hrest

/-! ## Definitions -/

def FormCutTo (levels : Nat) : Cuts Form :=
  fun value found errors =>
    found.same (value.cut levels) = true ∧ errors = (value.overdeep levels).map tooDeep

section Definitions

variable {read read' : Parser Expr} (h : Follows numbered (Like numbered levels) read read')

include h

theorem wholeFunction_follows (visibility : Visibility) (start : Location) :
    FollowsWhen numbered given keep (fun form used form' errors => Matches numbered SpellForm
      (FormCutTo levels) form (leftParen :: word visibility.keyword :: used) form' errors)
      (wholeFunction read visibility start) (wholeFunction read' visibility start) := by
  have hbody (name : String) (params : List Parameter) (what : String) : FollowsWhen numbered
      (fun _ => True) keep (fun form used form' errors => ∀ signature, IsName name →
        SpellParameters params signature → Matches numbered SpellForm (FormCutTo levels) form
          (leftParen :: word visibility.keyword :: (parens (word name :: signature) ++ used)) form'
          errors)
      (do
        let exprs ← body read
        close what
        pure (.function ⟨← infoFrom start, name, visibility, params, exprs⟩))
      (do
        let exprs ← body read'
        close what
        pure (.function ⟨← infoFrom start, name, visibility, params, exprs⟩)) := by
    refine (body_follows h).thenClose fun exprs exprs' => node_blind fun finish id id' hid => ?_
    rintro used errors ⟨hspell, ⟨hsame, rfl⟩, hnumbered⟩ signature hname hparams
    refine ⟨?_, ⟨?_, rfl⟩, fun h => by simp [hid h, hnumbered h]⟩
    · simpa [parens] using
        SpellForm.function _ name visibility params signature exprs used hname hparams hspell
    · simp [cut, same, FunctionDef.same, agree_self Parameter.same_self, hsame]
  refine (expect_follows (c := '(') rfl _).bind_same fun _ => (expectName_follows _).bind_same
    fun name => (repeatOpen_follows (lists_same .nil) parameter_follows).bind_same_keep
      (fun params => (close_follows _).bind_same fun _ => (hbody name params _).imp ?_)
      fun params s x s' hruns => ?_
  · rintro form used form' errors hform _ rfl signature hparams _ ⟨hname, rfl⟩ _ ⟨_, rfl⟩
    simpa [parens, leftParen] using hform signature hname hparams
  · obtain ⟨_, s₁, hclose, hrest⟩ := bind_eq_done.mp hruns.done
    exact (close_eq_done hclose
      (clean_of_onward ((hbody name params _).onward hrest) hruns.clean)).1

omit h in
theorem refused_follows : FollowsWhen numbered given keep (fun _ _ _ _ => False)
    (refused : Parser Form) refused :=
  follows_of_undone (fun s value s' hrun => absurd hrun (refused_undone s value s'))
    fun s value s' _ hrun => absurd hrun (refused_undone s value s')

attribute [local simp] FormCutTo Form.cut Form.same Form.overdeep Form.parts Expr.overdeepList
  Expr.sameList TypeSpec.same_self in
theorem definitionAfter_follows (keyword : String) (start : Location) :
    FollowsWhen numbered given keep (fun form used form' errors => Matches numbered SpellForm
      (FormCutTo levels) form (leftParen :: word keyword :: used) form' errors)
      (definitionAfter read keyword start) (definitionAfter read' keyword start) := by
  unfold definitionAfter
  split
  · refine (expectName_follows _).bind_same fun name => h.bind fun value found =>
      (node_blind fun finish id id' hid => ?_).close
    rintro used errors ⟨hspell, ⟨hsame, rfl⟩, hnumbered⟩ _ ⟨hname, rfl⟩
    refine ⟨.constant _ name value used hname hspell, ?_, fun h => by simp [hid h, hnumbered h]⟩
    simp [hsame]
  · exact wholeFunction_follows h .external start
  · exact wholeFunction_follows h .internal start
  · exact wholeFunction_follows h .readOnly start
  · refine (expectName_follows _).bind_same fun name => typeSpec_follows.bind_same fun keyType =>
      typeSpec_follows.bind_same fun valueType => (node_blind fun finish id id' hid => ?_).close
    rintro second hvalue first hkey _ ⟨hname, rfl⟩
    refine ⟨?_, ?_, fun h => by simp [hid h]⟩
    · simpa [parens] using SpellForm.map _ name keyType valueType first second hname hkey hvalue
    · simp
  · refine (expectName_follows _).bind_same fun name => typeSpec_follows.bind_same fun type =>
      h.bind fun initial found => (node_blind fun finish id id' hid => ?_).close
    rintro second errors ⟨hspell, ⟨hsame, rfl⟩, hnumbered⟩ first htype _ ⟨hname, rfl⟩
    refine ⟨?_, ?_, fun h => by simp [hid h, hnumbered h]⟩
    · simpa [parens] using SpellForm.dataVar _ name type initial first second hname htype hspell
    · simp [hsame]
  · refine (expectName_follows _).bind_same fun name => typeSpec_follows.bind_same fun type =>
      (node_blind fun finish id id' hid => ?_).close
    rintro used htype _ ⟨hname, rfl⟩
    refine ⟨.nonFungible _ name type used hname htype, ?_, fun h => by simp [hid h]⟩
    simp
  · refine (expectName_follows _).bind_same fun name => (optional_follows h).bind
      fun supply supply' => (node_blind fun finish id id' hid => ?_).close
    rintro used errors ⟨hspell, hcut, hnumbered⟩ _ ⟨hname, rfl⟩
    refine ⟨.fungible _ name supply used hname hspell, ?_, fun h => by simp [hid h, hnumbered h]⟩
    cases hcut with
    | none => simp
    | some hsupply =>
        obtain ⟨hsame, rfl⟩ := hsupply
        simp [hsame]
  · refine (expectName_follows _).bind_same fun name => (parenthesized_follows _ _
      (repeatOpen_follows (lists_same .nil) traitFunction_follows)).bind fun _ _ =>
        (node_blind fun finish id id' hid => ?_).close
    rintro _ _ ⟨used, rfl, rfl, rfl, hspell⟩ _ ⟨hname, rfl⟩
    refine ⟨?_, ?_, fun h => by simp [hid h]⟩
    · simpa [parens] using SpellForm.trait _ name _ used hname hspell
    · simp [agree_self TraitFunction.same_self]
  · refine (expectName_follows _).bind_same fun name => h.bind fun reference found =>
      (node_blind fun finish id id' hid => ?_).close
    rintro used errors ⟨hspell, ⟨hsame, rfl⟩, hnumbered⟩ _ ⟨hname, rfl⟩
    refine ⟨.useTrait _ name reference used hname hspell, ?_, fun h => by simp [hid h, hnumbered h]⟩
    simp [hsame]
  · refine h.bind fun reference found => (node_blind fun finish id id' hid => ?_).close
    rintro used errors ⟨hspell, ⟨hsame, rfl⟩, hnumbered⟩
    refine ⟨.implTrait _ reference used hspell, ?_, fun h => by simp [hid h, hnumbered h]⟩
    simp [hsame]
  · exact refused_follows.imp fun _ _ _ _ => False.elim

theorem definition_follows : FollowsWhen numbered given keep
    (Matches numbered SpellForm (FormCutTo levels)) (definition read) (definition read') := by
  refine (advance_follows (fun _ => True) fun _ _ => trivial).bind_same fun first =>
    peek_bind_follows fun head => ?_
  split
  · next hkinds =>
      have hname : head.kind.isName = true := by simp [hkinds.2, TokenKind.isName]
      refine ((advance_name_follows hname).mono (fun _ h => h.2) fun _ h => h).bind_same fun _ =>
        (definitionAfter_follows h head.value first.location).imp ?_
      rintro form _ _ _ hform _ ⟨_, _, rfl⟩ _ ⟨_, hlexical, rfl⟩
      rw [hlexical.eq_of_punctuation (c := '(') rfl hkinds.1]
      exact hform
  · exact refused_follows.imp fun _ _ _ _ => False.elim

/-! ## Contracts -/

omit h in
theorem resume_eq (hstart : s.ahead = [] ∨ startsDefinition s.ahead = true) (line : Int) :
    resume line s = s := by
  cases hahead : s.ahead with
  | nil => exact resume_of_nil line hahead
  | cons token rest =>
      rw [hahead] at hstart
      rw [resume_of_cons line hahead, if_pos (hstart.resolve_left (cons_ne_nil _ _))]

variable (horderly : Orderly read) (horderly' : Orderly read')

include horderly horderly'

theorem formThenResume_follows {first} (t : State) {id : Nat}
    (past : List Diagnostic) (hlex : Lexical s.ahead)
    (hrun : formThenResume read s = .done first s') (hclean : s'.errors = [])
    (hid : numbered → id = s.nextId)
    (hbehind : numbered ∨ s'.ahead ++ t.ahead = [] ∨
      startsDefinition (s'.ahead ++ t.ahead) = true) :
    ∃ used form form' id' errors, first = some form ∧ Took s used s' ∧
      Matches numbered SpellForm (FormCutTo levels) form (lexemes used) form' errors ∧
      (numbered → id' = s'.nextId) ∧ formThenResume read' (s.elsewhere t id past) =
        .done (some form') (s'.elsewhere t id' (past ++ errors)) := by
  obtain ⟨form, rfl, hform⟩ := formThenResume_clean horderly hrun hclean
  have hfollows : FollowsWhen numbered (fun _ => True) (fun _ => True) _ _ _ :=
    definition_follows h
  obtain ⟨used, form', id', errors, htook, hmatches, hid', hform'⟩ :=
    hfollows.follow t id past ⟨trivial, hlex, hform, hclean, trivial⟩ hid
  refine ⟨used, form, form', id', errors, rfl, htook, hmatches, hid',
    formThenResume_eq_done.mpr ⟨_, _, form_of_definition horderly' hform', rfl, ?_⟩⟩
  unfold resumeIf
  split
  · next hmore =>
      refine congrArg (Step.done ()) (resume_eq (hbehind.resolve_left fun hnumbered => ?_) _)
      rw [(hmatches.same hnumbered).2] at hmore
      simp [elsewhere] at hmore
  · rfl

def FormsCutTo (levels : Nat) : Cuts (List Form) :=
  fun values founds errors => agree same founds (values.map (cut levels)) = true ∧
    errors = (values.flatMap (overdeep levels)).map tooDeep

omit h horderly horderly' in
theorem FormCutTo.cons {value found : Form} {values founds}
    {errors more} (h : FormCutTo levels value found errors)
    (hrest : FormsCutTo levels values founds more) :
    FormsCutTo levels (value :: values) (found :: founds) (errors ++ more) := by
  obtain ⟨hsame, rfl⟩ := h
  obtain ⟨hagree, rfl⟩ := hrest
  refine ⟨?_, by rw [flatMap_cons, map_append]⟩
  simp only [agree, Bool.and_eq_true, decide_eq_true_eq, length_map, all_eq_true] at hagree ⊢
  simpa [hsame, hagree.1] using hagree.2

/-- Forms that are read without errors start with a definition and spell all tokens. Elsewhere they
are read before what stands behind them; that is nothing, unless the forms are the same. -/
theorem forms_follows (hlex : Lexical s.ahead) (hrun : forms read s = .done found s')
    (hclean : s'.errors = []) :
    (s.ahead = [] ∨ startsDefinition s.ahead = true) ∧ ∀ t id past,
      (numbered → id = s.nextId) → (numbered ∨ t.ahead = []) → ∃ forms forms' id' errors,
        found = forms.map some ∧
        Matches numbered SpellForms (FormsCutTo levels) forms (lexemes s.ahead) forms' errors ∧
        (numbered → id' = s'.nextId) ∧ ∀ later s'',
          Parser.forms read' (s'.elsewhere t id' (past ++ errors)) = .done later s'' →
          Parser.forms read' (s.elsewhere t id past) = .done (forms'.map some ++ later) s'' := by
  revert hlex
  refine forms_rec horderly (fun hnil _ => ⟨.inl hnil, fun t id past hid _ =>
    ⟨[], [], id, [], rfl, ?_, hid, ?_⟩⟩) ?_ hrun
  · rw [hnil]
    exact ⟨.nil, ⟨rfl, rfl⟩, fun _ => ⟨rfl, rfl⟩⟩
  · intro later s'' hlater
    rwa [append_nil] at hlater
  · intro s s₁ first rest hahead hfirst hrest ih hlex
    have hclean₁ := clean_of_onward
      ((repeatWhile_behaves (formThenResume_steady horderly)).orderly.done hrest) hclean
    obtain ⟨form, rfl, hform⟩ := formThenResume_clean horderly hfirst hclean₁
    obtain ⟨_, _, _, hstarts, hstart⟩ := definition_starts hform
    have honward := (formThenResume_steady horderly).orderly.done hfirst
    obtain ⟨hnext, hlater⟩ := ih (lexical_of_onward honward hlex)
    refine ⟨.inr (hstarts ▸ hstart), fun t id past hid hbehind => ?_⟩
    obtain ⟨used, _, form', id₁, errors, heq, htook, hmatches, hid₁, hform'⟩ :=
      formThenResume_follows h horderly horderly' t past hlex hfirst hclean₁ hid
        (hbehind.imp_right fun hnil => by rwa [hnil, append_nil])
    cases heq
    obtain ⟨forms, forms', id', more, rfl, hmatches', hid', hforms'⟩ :=
      hlater t id₁ (past ++ errors) hid₁ hbehind
    refine ⟨form :: forms, form' :: forms', id', errors ++ more, rfl, ⟨?_, ?_, ?_⟩, hid', ?_⟩
    · rw [htook.ahead, lexemes_append]
      exact .cons form _ forms _ hmatches.spelled hmatches'.spelled
    · exact hmatches.cut.cons hmatches'.cut
    · intro hnumbered
      simp [hmatches.same hnumbered, hmatches'.same hnumbered]
    · intro later s'' hend
      rw [← append_assoc] at hend
      have hahead' : (s.elsewhere t id past).ahead ≠ [] := by simp [elsewhere, hahead]
      rw [forms_cons horderly' hahead']
      exact bind_eq_done.mpr ⟨some form', _, hform',
        bind_eq_done.mpr ⟨_, _, hforms' later s'' hend, rfl⟩⟩

end Definitions

theorem forms_spelled (t : State) (hlex : Lexical s.ahead) (hrun : forms expr s = .done found s')
    (hclean : s'.errors = []) :
    SpellForms (found.filterMap id) (lexemes s.ahead) ∧ ∀ later s'',
      forms expr (s'.elsewhere t s'.nextId []) = .done later s'' →
      forms expr (s.elsewhere t s.nextId []) = .done (found ++ later) s'' := by
  obtain ⟨forms, forms', id', errors, rfl, hmatches, hid', hforms'⟩ :=
    (forms_follows (expr_follows True) expr_orderly expr_orderly hlex hrun hclean).2 t s.nextId []
      (fun _ => rfl) (.inl trivial)
  obtain ⟨rfl, rfl⟩ := hmatches.same trivial
  obtain rfl := hid' trivial
  exact ⟨by simpa using hmatches.spelled, hforms'⟩

/-- The tokens of a contract that is read without errors spell it. -/
theorem contract_spelled {contract} (hlex : Lexical s.ahead)
    (h : Parser.contract expr s = .done contract s') (hclean : s'.errors = []) :
    SpellContract contract (lexemes s.ahead) := by
  rw [Parser.contract, peek_bind_run] at h
  obtain ⟨found, s₁, hforms, h⟩ := bind_eq_done.mp h
  cases h
  exact (forms_spelled s hlex hforms hclean).1

theorem formThenResume_previous (h : s.ahead ≠ []) (previous : Token) :
    formThenResume expr { s with previous := previous } = formThenResume expr s := by
  have hform : form expr { s with previous := previous } = form expr s := by
    rw [form, advance_bind_run, advance_bind_run, State.advance_previous h]
    rfl
  exact bind_congr_run hform _

theorem forms_previous_eq (h : s.ahead ≠ []) (previous : Token) :
    forms expr { s with previous := previous } = forms expr s := by
  have hmoved : ({ s with previous := previous } : State).ahead ≠ [] := h
  rw [forms_cons expr_orderly h, forms_cons expr_orderly hmoved]
  exact bind_congr_run (formThenResume_previous h previous) _

theorem forms_previous (h : forms expr s = .done found s') (previous : Token) :
    ∃ s'', forms expr { s with previous := previous } = .done found s'' ∧ s''.errors =
      s'.errors := by
  by_cases hahead : s.ahead = []
  · rw [forms_nil hahead] at h
    cases h
    exact ⟨_, forms_nil hahead, rfl⟩
  · exact ⟨s', by rw [forms_previous_eq hahead, h], rfl⟩

/-- A contract is what its forms are, and numbering it reads nothing. -/
theorem contract_of_forms (h : forms expr s = .done found s') :
    contract expr s =
      .done ⟨⟨⟨s.current.location, s'.previous.finish⟩, s'.nextId⟩, found.filterMap id⟩
        { s' with nextId := s'.nextId + 1 } :=
  bind_eq_done.mpr ⟨_, _, rfl, bind_eq_done.mpr ⟨_, _, h, rfl⟩⟩

end Parser

theorem lexical_ofTokens (source : String) : Lexical (State.ofTokens (tokenize source)).ahead := by
  rw [ofTokens_tokenize_ahead]
  exact fun token htoken => (tokenize_lexical htoken).1

/-- The tokens of a text that parses without errors spell the contract. -/
theorem spellContract_of_parse {source : String} {result : ParseResult}
    (h : parse source = .ok result) (hclean : result.errors = []) :
    SpellContract result.contract (lexemes (tokenize source).dropLast) := by
  obtain ⟨state, hrun, herrors⟩ := parseTokens_eq_ok.mp h
  have hspell := Parser.contract_spelled (lexical_ofTokens source) hrun (herrors.trans hclean)
  rwa [ofTokens_tokenize_ahead] at hspell

end ContractAudit
