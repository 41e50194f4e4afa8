import ContractAudit.Proofs.Parse.Onward
import ContractAudit.Proofs.Parse.Reads.Patterns

/-!
# Printed expressions are read back

A compound expression is read by the parser of its level and the expressions in it by the parser of
the level below, so that the levels of the parser are those of the expression.
-/

namespace ContractAudit

open List Named

variable {args exprs : List Expr}

theorem Expr.opens_marks (expr : Expr) : Opens expr.marks := by
  cases expr with
  | literal info value => exact ⟨.literal value, [], rfl, nofun⟩
  | identifier info name => exact ⟨.name name, [], rfl, nofun⟩
  | conditional info condition yes no => cases no <;> exact opens_parens _
  | _ => exact opens_parens _

namespace Parser

open Parse

variable {nested : Parser Expr} {follow : List Token → Prop}
  {form : Parser Expr → Location → Parser Expr} {expr : Expr} {gives : Expr → Prop}
  {marks inner : List Mark} {callee word : String} (info : NodeInfo)

/-- A parser reads an expression as itself, without places and numbers. -/
def ReadsExpr (parser : Parser Expr) (expr : Expr) : Prop :=
  ReadsMarks parser expr.marks fun value => value.erase = expr.erase

theorem body_reads_exprs (h : ∀ expr ∈ exprs, ReadsExpr nested expr) :
    Reads inMarks Closed (body nested) (exprs.flatMap Expr.marks) fun found =>
      found.map Expr.erase = exprs.map Expr.erase :=
  body_reads h fun expr _ => expr.opens_marks

/-! ## Names and literals -/

theorem name_uncons {name tokens} (h : Written (.name name :: marks) tokens) :
    ∃ first more rest, tokens = first :: (more ++ rest) ∧ first.kind.isName = true ∧
      first.value.toList = name.toList.takeWhile (· ≠ '.') ∧ Written marks rest ∧
      ∀ others, Undotted others →
        ∃ last, dottedTail first first.value (more ++ others) = (last, name, others) := by
  cases h with
  | cons hstands hrest =>
      cases hstands with
      | name _ first more hname _ hvalue htail =>
          exact ⟨first, more, _, rfl, hname, hvalue, hrest, htail⟩

theorem peek_name_reads {α : Type} {name next} {gives : α → Prop}
    (h : ∀ token : Token, token.kind.isName = true → token.value.toList =
      name.toList.takeWhile (· ≠ '.') →
      Reads inMarks follow (next token) (.name name :: marks) gives) :
    Reads inMarks follow (peek >>= next) (.name name :: marks) gives := by
  intro tokens hwritten
  obtain ⟨first, more, rest, rfl, hname, hvalue, _, _⟩ := name_uncons hwritten
  exact peek_bind_takes (h first hname hvalue hwritten)

theorem dottedName_reads (name : String) : ReadsMarks dottedName [.name name] (· = name) := by
  intro tokens hwritten s rest _ hahead hrest
  obtain ⟨first, more, _, rfl, _, _, ⟨⟩, htail⟩ := name_uncons hwritten
  obtain ⟨last, hlast⟩ := htail rest hrest
  rw [append_nil] at hahead
  exact ⟨name, _, dottedName_eq (State.current_eq hahead) (State.advance_eq hahead) hlast
    (suffix_append more rest), rfl, rfl, rfl⟩

theorem nameExpr_reads (name : String) : ReadsExpr nameExpr (.identifier info name) := by
  refine ask_any_reads fun token => ?_
  refine (dottedName_reads name).bind_nil fun found hfound => node_takes fun place => ?_
  rw [hfound]
  rfl

theorem literalExpr_takes {token : Token} {value}
    (hkind : token.kind.isLiteral = true) (hvalue : literalValue token = pure value) :
    Takes literalExpr [token] follow fun expr => expr.erase = .literal .nowhere value := by
  refine peek_bind_takes (ask_bind_takes false (fun s rest _ hahead _ => ?_) ?_)
  · have hdot : s.sees .dot = false := by
      rw [State.sees, State.current_eq hahead, decide_eq_false_iff_not]
      intro hdot
      rw [hdot] at hkind
      cases hkind
    rw [hdot, Bool.false_and]
  · rw [if_neg Bool.false_ne_true, if_pos hkind]
    refine (literal_takes hvalue).bind_nil fun found hfound => pure_takes ?_
    rw [hfound]
    rfl

/-! ## Forms with a keyword -/

theorem letBinding_reads {binding : Named Expr} (h : ReadsExpr nested binding.value) :
    ReadsMarks (letBinding nested) binding.marks fun value => value.erase = binding.erase := by
  refine advance_bind_reads single_open fun opening _ => (expectName_reads _ binding.name).bind
    fun name hname => h.bind fun value hvalue => closeNode_reads fun place => ?_
  rw [erase, erase, hname, hvalue]

theorem bodyNode_reads (h : ∀ expr ∈ exprs, ReadsExpr nested expr)
    (what : String) (start : Location) (make : NodeInfo → List Expr → Expr) :
    Reads inMarks follow (do
      let found ← body nested
      close what
      pure (make (← infoFrom start) found)) (exprs.flatMap Expr.marks ++ [.rightParen])
      fun value => ∃ info found, value = make info found ∧
        Expr.eraseList found = Expr.eraseList exprs := by
  refine (body_reads_exprs h).bindClosed single_close fun found hfound =>
    closeNode_reads fun info => ?_
  refine ⟨info, found, rfl, ?_⟩
  rw [Expr.eraseList_eq, Expr.eraseList_eq, hfound]

/-! ## Matches -/

theorem matchArm_reads {pattern} (hpattern : pattern.printable = true)
    (hexpr : ReadsExpr nested expr) (info : NodeInfo) :
    ReadsMarks (matchArm nested) (Arm.marks ⟨info, pattern, [expr]⟩)
      fun value => value.erase = Arm.erase ⟨info, pattern, [expr]⟩ := by
  intro tokens hwritten
  rw [Arm.marks, flatMap_singleton] at hwritten
  obtain ⟨words, body, rfl, hwords, hbody⟩ := Written.append_inv hwritten
  exact matchArm_takes info (armPattern?_reads hpattern hwords) (hexpr hbody) fun _ =>
    expr.opens_marks.continued hbody

/-! ## Tuples -/

theorem parenField_reads {field : Named Expr} (h : ReadsExpr nested field.value) :
    ReadsMarks (parenField nested) field.marks fun value =>
      value.map erase = some field.erase := by
  refine ask_any_reads fun token => ?_
  refine (expect_open_reads _).bind fun seen hseen => ?_
  subst hseen
  refine (expectName_reads _ field.name).bind fun name hname => h.bind fun value hvalue => ?_
  refine closeNode_reads fun place => ?_
  rw [Option.map_some, erase, erase, hname, hvalue]

/-! ## Calls -/

theorem callExpr_reads (h : ∀ arg ∈ args, ReadsExpr nested arg) (start : Location)
    (info : NodeInfo) :
    ReadsMarks (callExpr nested start) (.name callee :: (args.flatMap Expr.marks ++ [.rightParen]))
      fun value => value.erase = (Expr.call info callee args).erase := by
  have hcallee : ReadsMarks (Parser.callee nested) [.name callee] (· = callee) := by
    refine peek_name_reads fun token hname _ => ?_
    rw [if_pos hname]
    exact dottedName_reads callee
  refine hcallee.bind fun found hfound => ?_
  refine (bodyNode_reads h _ start (Expr.call · found ·)).imp ?_
  rintro _ ⟨place, found', rfl, hfound'⟩
  rw [Expr.erase, Expr.erase, hfound, hfound']

theorem specialForm?_keyword (h : specialForm? word = some form) :
    Scan.wordKind word.toList = .keyword ∧ Vocabulary.definitions.contains word = false := by
  unfold specialForm? at h
  split at h <;> first | exact ⟨by decide, by decide⟩ | cases h

theorem exprWith_reads_parens (h : ReadsMarks (parenExpr nested) (Mark.parens inner) gives) :
    ReadsMarks (exprWith (compoundExpr nested)) (Mark.parens inner) gives := by
  refine peek_bind_reads single_open fun token hkind => ?_
  rw [hkind]
  refine ask_bind_reads true (fun s tokens rest hwritten hahead _ => ?_) h
  obtain ⟨opening, more, rfl, hopen, _⟩ := single_open.uncons hwritten
  exact (starts_leftParen hopen).2 s rest hahead

theorem exprWith_reads_form {keyword} (hform : specialForm? keyword = some form)
    (h : ∀ start, ReadsMarks (form nested start) (inner ++ [.rightParen]) gives) :
    ReadsMarks (exprWith (compoundExpr nested)) (Mark.parens (.word keyword :: inner)) gives := by
  obtain ⟨hkind, hdefinition⟩ := specialForm?_keyword hform
  refine exprWith_reads_parens (ask_any_reads fun before => ?_)
  refine advance_bind_reads single_open fun opening _ => ?_
  refine peek_bind_reads (single_word keyword) fun head hhead => ?_
  rw [parenExprAfter, hhead.kind, hkind]
  rw [hhead.value, hdefinition, hform]
  exact advance_bind_reads (single_word keyword) fun _ _ => h opening.location

theorem specialForm?_eq_none (h : word ∉ formWords) : specialForm? word = none := by
  unfold specialForm?
  split <;> first | rfl | exact absurd (by decide) h

theorem parenExprAfter_eq_call {head : Token} (hname : head.kind.isName = true)
    (hvalue : head.value ∉ formWords) (before : State) (start : Location) :
    parenExprAfter nested before start head = callExpr nested start := by
  have hdefinition : Vocabulary.definitions.contains head.value = false := by
    rw [contains_eq_mem, decide_eq_false_iff_not]
    exact fun hmem => hvalue (mem_append_left _ hmem)
  unfold parenExprAfter
  split
  · next hkind =>
      rw [hkind] at hname
      cases hname
  · rw [hdefinition, specialForm?_eq_none hvalue]
    rfl
  · rfl

theorem exprWith_reads_call (hcallee : isCallee callee = true)
    (h : ∀ arg ∈ args, ReadsExpr nested arg) (info : NodeInfo) :
    ReadsExpr (exprWith (compoundExpr nested)) (.call info callee args) := by
  rw [ReadsExpr, Expr.marks, Expr.marksList_eq]
  refine exprWith_reads_parens (ask_any_reads fun before => advance_bind_reads single_open
    fun opening _ => peek_name_reads fun head hname hvalue => ?_)
  rw [isCallee, ← hvalue, String.ofList_toList, Bool.and_eq_true] at hcallee
  rw [parenExprAfter_eq_call hname (by simpa using hcallee.2)]
  exact callExpr_reads h opening.location info

/-! ## Expressions of any depth -/

variable {compound : Parser Expr}

theorem exprWith_reads_literal (value : Literal) :
    ReadsExpr (exprWith compound) (.literal info value) := by
  refine (single_literal value).reads fun token hliteral => peek_bind_takes ?_
  obtain ⟨hkind, hvalue⟩ := hliteral
  have hread : Takes literalExpr [token] Undotted fun expr => expr.erase =
    .literal .nowhere value :=
    literalExpr_takes hkind hvalue
  cases hcase : token.kind with
  | uint | int | bool | stringAscii | stringUtf8 | buffer | principal => exact hread
  | _ =>
      rw [hcase] at hkind
      cases hkind

theorem exprWith_reads_identifier (name : String) :
    ReadsExpr (exprWith compound) (.identifier info name) := by
  refine peek_name_reads fun token hkind _ => ?_
  have hread := nameExpr_reads info name
  cases hcase : token.kind with
  | identifier | keyword => exact hread
  | _ =>
      rw [hcase] at hkind
      cases hkind

theorem marks_conditional (condition yes : Expr) (no : Option Expr) :
    (Expr.conditional info condition yes no).marks = Mark.parens (.word "if" ::
      (condition.marks ++ (yes.marks ++ no.toList.flatMap Expr.marks))) := by
  cases no <;> simp [Expr.marks]

theorem exprWith_reads_compound {levels : Nat}
    (hnested : ∀ inner : Expr, inner.printable levels = true → ReadsExpr nested inner)
    (h : expr.printable (levels + 1) = true) : ReadsExpr (exprWith (compoundExpr nested)) expr := by
  have hlist {exprs : List Expr} (h : Expr.printableList levels exprs = true) :
      ∀ inner ∈ exprs, ReadsExpr nested inner := by
    rw [Expr.printableList_eq, all_eq_true] at h
    exact fun inner hinner => hnested inner (h inner hinner)
  have hnamed {fields : List (Named Expr)} (h : Expr.printableNamed levels fields = true) :
      ∀ field ∈ fields, ReadsExpr nested field.value := by
    rw [Expr.printableNamed_eq, all_eq_true] at h
    exact fun field hfield => hnested _ (Bool.and_eq_true _ _ ▸ h field hfield).2
  unfold ReadsExpr
  cases expr with
  | literal info value => exact exprWith_reads_literal info value
  | identifier info name => exact exprWith_reads_identifier info name
  | call info callee args =>
      simp only [Expr.printable, Nat.add_sub_cancel, Bool.and_eq_true] at h
      exact exprWith_reads_call h.1.2 (hlist h.2) info
  | letIn info bindings body =>
      simp only [Expr.printable, Nat.add_sub_cancel, Bool.and_eq_true] at h
      rw [Expr.marks, Expr.marksNamed_eq, Expr.marksList_eq]
      refine exprWith_reads_form rfl fun start => ?_
      rw [append_assoc]
      refine (parenthesized_reads _ _ (parens_reads fun binding hbinding =>
        letBinding_reads (hnamed h.1.2 binding hbinding))).bind fun _ hbindings =>
          (body_reads_exprs (hlist h.2)).bindClosed single_close fun _ hbody =>
            closeNode_reads fun _ => ?_
      rw [Expr.erase, Expr.erase, Expr.eraseNamed_eq, Expr.eraseNamed_eq, Expr.eraseList_eq,
        Expr.eraseList_eq, hbindings, hbody]
  | block info body =>
      simp only [Expr.printable, Nat.add_sub_cancel, Bool.and_eq_true] at h
      rw [Expr.marks, Expr.marksList_eq]
      refine exprWith_reads_form rfl fun start =>
        (bodyNode_reads (hlist h.2) _ start Expr.block).imp ?_
      rintro _ ⟨place, found, rfl, hfound⟩
      rw [Expr.erase, Expr.erase, hfound]
  | conditional info condition yes no =>
      have hparts : condition.printable levels = true ∧ yes.printable levels = true ∧
          ∀ expr ∈ no, expr.printable levels = true := by
        cases no with
        | none => simpa [Expr.printable, and_assoc] using h
        | some no => simpa [Expr.printable, and_assoc] using h
      obtain ⟨hcondition, hyes, hno⟩ := hparts
      rw [marks_conditional]
      refine exprWith_reads_form rfl fun start => ?_
      rw [append_assoc, append_assoc]
      refine (hnested _ hcondition).bind fun _ hfirst => (hnested _ hyes).bind fun _ hsecond =>
        (unlessClosed_reads_option (fun expr hexpr => hnested expr (hno expr hexpr))
          fun expr _ => expr.opens_marks).bindClosed single_close fun _ hthird =>
            closeNode_reads fun _ => ?_
      rw [Expr.erase_conditional, Expr.erase_conditional, hfirst, hsecond, hthird]
  | matchOn info subject arms =>
      -- An arm without a body is not printable, as the pattern would be read as the body.
      simp only [Expr.printable, Nat.add_sub_cancel, Bool.and_eq_true, Expr.printableArms_eq,
        all_eq_true] at h
      have harms : ∀ arm ∈ arms, ReadsMarks (matchArm nested) arm.marks fun value =>
          value.erase = arm.erase := by
        rintro ⟨place, pattern, body⟩ harm
        obtain ⟨hlength, hprintable⟩ := h.2 _ harm
        obtain ⟨expr, rfl⟩ := length_eq_one_iff.mp (of_decide_eq_true hlength)
        obtain ⟨hpattern, hexpr⟩ := hprintable expr (mem_singleton_self _)
        exact matchArm_reads hpattern (hnested _ hexpr) place
      rw [Expr.marks, Expr.marksArms_eq]
      refine exprWith_reads_form rfl fun start => ?_
      rw [append_assoc]
      refine (hnested _ h.1.2).bind fun _ hsubject => (body_reads harms fun arm _ =>
        arm.pattern.opens_marks.append _).bindClosed single_close fun _ hfound =>
          closeNode_reads fun _ => ?_
      rw [Expr.erase, Expr.erase, hsubject, Expr.eraseArms_eq, Expr.eraseArms_eq, hfound]
  | list info elements =>
      simp only [Expr.printable, Nat.add_sub_cancel, Bool.and_eq_true] at h
      rw [Expr.marks, Expr.marksList_eq]
      refine exprWith_reads_form rfl fun start =>
        (bodyNode_reads (hlist h.2) _ start Expr.list).imp ?_
      rintro _ ⟨place, found, rfl, hfound⟩
      rw [Expr.erase, Expr.erase, hfound]
  | tuple info fields =>
      simp only [Expr.printable, Nat.add_sub_cancel, Bool.and_eq_true] at h
      rw [Expr.marks, Expr.marksNamed_eq]
      refine exprWith_reads_form rfl fun start =>
        (body_reads (fun field hfield => parenField_reads (hnamed h.2 field hfield))
          fun field _ => opens_parens _).bindClosed single_close fun _ hfields =>
            closeNode_reads fun _ => ?_
      rw [Expr.erase, Expr.erase, Expr.eraseNamed_eq, Expr.eraseNamed_eq, map_filterMap_id hfields]

theorem exprWithin_reads (levels : Nat) (h : expr.printable levels = true) :
    ReadsExpr (exprWithin levels) expr := by
  induction levels generalizing expr with
  | zero =>
      cases expr with
      | literal info value => exact exprWith_reads_literal info value
      | identifier info name => exact exprWith_reads_identifier info name
      | conditional info condition yes no => cases no <;> simp [Expr.printable] at h
      | _ => simp [Expr.printable] at h
  | succ levels ih => exact exprWith_reads_compound (fun inner hinner => ih hinner) h

theorem expr_reads (h : expr.printable maxNesting = true) : ReadsExpr Parser.expr expr :=
  exprWithin_reads maxNesting h

end Parser

end ContractAudit
