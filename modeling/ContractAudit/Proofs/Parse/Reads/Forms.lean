import ContractAudit.Proofs.Parse.Reads.Expressions
import ContractAudit.Proofs.Parse.Reads.Types
import ContractAudit.Proofs.Parse.Uninterrupted

/-!
# Printed contracts are read back

Each form is read by the parser for its keyword. Since no form leaves an error, the parse never
looks for a later form to go on with.
-/

namespace ContractAudit

open List TraitFunction Bool Mark

theorem Mark.parens_append (inner more : List Mark) :
    parens inner ++ more = .leftParen :: (inner ++ .rightParen :: more) := by
  simp [parens]

theorem Form.opens_marks (form : Form) : Opens form.marks := by cases form <;> exact opens_parens _

namespace Parser

open Parse

/-! ## Functions -/

theorem parameter_reads {param : Parameter} (h : param.type.printable = true) :
    ReadsMarks parameter param.marks fun value => value.erase = param.erase := by
  refine advance_bind_reads single_open fun opening _ => (expectName_reads _ param.name).bind
    fun name hname => (typeSpec_reads h).bind fun type htype => closeSpan_reads fun span => ?_
  rw [Parameter.erase, Parameter.erase, hname, htype]

theorem function_reads {definition : FunctionDef}
    (h : (Form.function definition).printable = true) (start : Location) :
    ReadsMarks (wholeFunction expr definition.visibility start)
      (parens (.word definition.name :: definition.params.flatMap Parameter.marks) ++
        (definition.body.flatMap Expr.marks ++ [.rightParen]))
      fun found => found.erase = (Form.function definition).erase := by
  obtain ⟨info, name, visibility, params, exprs⟩ := definition
  simp only [Form.printable, and_eq_true, all_eq_true, Expr.printableList_eq] at h
  obtain ⟨⟨_, hparams⟩, hexprs⟩ := h
  rw [parens_append, cons_append]
  refine (expect_open_reads _).bind fun _ _ => (expectName_reads _ name).bind fun name' hname => ?_
  refine (parens_reads fun param hparam => parameter_reads (hparams param hparam).2).bindClosed
    single_close fun params' hparams' => ?_
  refine (close_reads _).bind fun _ _ => ?_
  refine (body_reads_exprs fun expr hexpr => expr_reads (hexprs expr hexpr)).bindClosed
    single_close fun exprs' hexprs' => closeNode_reads fun place => ?_
  rw [Form.erase, Form.erase, hname, hparams', Expr.eraseList_eq, Expr.eraseList_eq, hexprs']

/-! ## Other definitions -/

theorem traitFunction_reads {function : TraitFunction} (h : function.printable = true) :
    ReadsMarks traitFunction function.marks fun value => value.erase = function.erase := by
  simp only [printable, and_eq_true, all_eq_true] at h
  obtain ⟨⟨_, hargs⟩, hreturn⟩ := h
  rw [marks, parens, cons_append, append_assoc]
  refine advance_bind_reads single_open fun opening _ => (expectName_reads _ function.name).bind
    fun name hname => ?_
  refine (parenthesized_reads _ _ (body_reads
    (fun spec hspec => (typeSpec_reads (hargs spec hspec)).mono fun _ _ => trivial)
    fun spec _ => spec.opens_marks)).bind fun args hargs' => ?_
  refine (typeSpec_reads hreturn).bind fun type htype => closeSpan_reads fun span => ?_
  rw [erase, erase, hname, hargs', htype]

/-! ## Forms -/

theorem definition_reads_keyword {keyword inner} {gives : Form → Prop} (h : ∀ start,
      ReadsMarks (definitionAfter expr keyword start) (inner ++ [.rightParen]) gives)
    (hkeyword : Scan.wordKind keyword.toList = .keyword := by decide) :
    ReadsMarks (definition expr) (parens (.word keyword :: inner)) gives := by
  refine advance_bind_reads single_open fun opening hopening => ?_
  refine peek_bind_reads (single_word keyword) fun head hhead => ?_
  rw [if_pos ⟨hopening, hhead.kind.trans hkeyword⟩, hhead.value]
  exact advance_bind_reads (single_word keyword) fun _ _ => h opening.location

theorem definition_reads {form : Form} (h : form.printable = true) :
    ReadsMarks (definition expr) form.marks fun found => found.erase = form.erase := by
  cases form with
  | function definition =>
      have hread := function_reads h
      obtain ⟨info, name, visibility, params, exprs⟩ := definition
      rw [Form.marks, Expr.marksList_eq]
      refine definition_reads_keyword (fun start => ?_) (by cases visibility <;> decide)
      rw [append_assoc]
      cases visibility <;> exact hread start
  | constant info name value =>
      simp only [Form.printable, and_eq_true] at h
      refine definition_reads_keyword fun start => (expectName_reads _ name).bind
        fun _ hname => (expr_reads h.2).bind fun _ hvalue => closeNode_reads fun _ => ?_
      rw [Form.erase, Form.erase, hname, hvalue]
  | map info name key value =>
      simp only [Form.printable, and_eq_true] at h
      refine definition_reads_keyword fun start => ?_
      rw [cons_append, append_assoc]
      refine (expectName_reads _ name).bind fun _ hname => (typeSpec_reads h.1.2).bind
        fun _ hkey => (typeSpec_reads h.2).bind fun _ hvalue => closeNode_reads fun _ => ?_
      rw [Form.erase, Form.erase, hname, hkey, hvalue]
  | dataVar info name type initial =>
      simp only [Form.printable, and_eq_true] at h
      refine definition_reads_keyword fun start => ?_
      rw [cons_append, append_assoc]
      refine (expectName_reads _ name).bind fun _ hname => (typeSpec_reads h.1.2).bind
        fun _ htype => (expr_reads h.2).bind fun _ hinitial => closeNode_reads fun _ => ?_
      rw [Form.erase, Form.erase, hname, htype, hinitial]
  | nonFungible info name type =>
      simp only [Form.printable, and_eq_true] at h
      refine definition_reads_keyword fun start => (expectName_reads _ name).bind
        fun _ hname => (typeSpec_reads h.2).bind fun _ htype => closeNode_reads fun _ => ?_
      rw [Form.erase, Form.erase, hname, htype]
  | fungible info name supply =>
      simp only [Form.printable, and_eq_true, Expr.printableList_eq, all_eq_true,
        Option.mem_toList] at h
      rw [Form.marks, Expr.marksList_eq]
      refine definition_reads_keyword fun start => (expectName_reads _ name).bind
        fun _ hname => (unlessClosed_reads_option (fun expr hexpr => expr_reads (h.2 expr hexpr))
          fun expr _ => expr.opens_marks).bindClosed single_close fun _ hsupply =>
            closeNode_reads fun _ => ?_
      rw [Form.erase, Form.erase, hname, hsupply]
  | trait info name functions =>
      simp only [Form.printable, and_eq_true, all_eq_true] at h
      refine definition_reads_keyword fun start => (expectName_reads _ name).bind
        fun _ hname => (parenthesized_reads _ _ (parens_reads fun function hfunction =>
          traitFunction_reads (h.2 function hfunction))).bind fun _ hfunctions =>
            closeNode_reads fun _ => ?_
      rw [Form.erase, Form.erase, hname, hfunctions]
  | useTrait info name reference =>
      simp only [Form.printable, and_eq_true] at h
      refine definition_reads_keyword fun start => (expectName_reads _ name).bind
        fun _ hname => (expr_reads h.2).bind fun _ hreference => closeNode_reads fun _ => ?_
      rw [Form.erase, Form.erase, hname, hreference]
  | implTrait info reference =>
      refine definition_reads_keyword fun start =>
        (expr_reads h).bind fun _ hreference => closeNode_reads fun _ => ?_
      rw [Form.erase, Form.erase, hreference]

theorem formThenResume_reads {form : Form} (h : form.printable = true) :
    ReadsMarks (formThenResume expr) form.marks fun value => value.map Form.erase =
      some form.erase := by
  intro tokens hwritten s more hscanned hahead hmore
  obtain ⟨found, s', hrun, hgives, hrest, herrors⟩ :=
    definition_reads h hwritten hscanned hahead hmore
  exact ⟨some found, s', formThenResume_of_definition expr_orderly hrun herrors,
    congrArg some hgives, hrest,
    herrors⟩

/-- A printed contract is read back, if nothing follows. -/
theorem contract_reads {contract : Contract} (h : contract.printable = true) :
    Reads inMarks (· = []) (Parser.contract expr) (contract.body.flatMap Form.marks)
      fun value => value.erase = contract.erase := by
  rw [Contract.printable, all_eq_true] at h
  have hforms :
    Reads inMarks (· = []) (repeatWhile (fun state => !state.atEnd) (formThenResume expr))
      (contract.body.flatMap Form.marks) fun found =>
        found.map (Option.map Form.erase) = contract.body.map fun form => some form.erase := by
    refine repeatWhile_reads (fun form hform => formThenResume_reads (h form hform))
      (fun form _ tokens hwritten => ?_) (fun s hend => by simp [State.atEnd_eq_isEmpty, hend])
        (by simp [Undotted])
    obtain ⟨token, later, rfl, _⟩ := form.opens_marks.continued hwritten
    exact ⟨cons_ne_nil token later, fun s rest hahead => by simp [State.atEnd_eq_isEmpty, hahead]⟩
  refine ask_any_reads fun token => hforms.bind_nil fun forms hfound => node_takes fun place => ?_
  rw [Contract.erase, Contract.erase, map_filterMap_id hfound]

end Parser

end ContractAudit
