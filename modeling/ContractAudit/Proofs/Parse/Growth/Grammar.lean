import ContractAudit.Proofs.Parse.Growth.Basic

/-!
# The trees of a contract

What each parser of the grammar reads. An expression with a number of levels is a tree of as many
levels, and what stands in the place of a callee is read and dropped. An arm without a pattern has
an absent one.
-/

namespace ContractAudit.Parser

open Parse List State

variable {headed : Bool} {levels : Nat} {s s₁ s' : State} {before : List Node} {keyword : String}
  (bound : Nat) (token : Token)

attribute [local simp] Node.parts Node.children Form.parts List.map_eq_flatMap

/-! ## Literals and patterns -/

theorem literalValue_grows : Grows levels (literalValue token) fun _ => [] := by
  intro s value s' _ h
  rw [literalValue_eq_done h]
  exact .refl _ _

theorem literal_grows :
    GrowsWhen levels (·.ahead ≠ []) literal fun found => [.expr (.literal found.1 found.2)] :=
  advance_grows (fun _ h => h) fun _ _ =>
    .step (literalValue_grows _) fun _ => .node (fun _ => rfl) (by simp)

section Patterns

variable {nested : Parser (Option Pattern)}

/-- The tree of a pattern that may be missing. -/
abbrev patternRow (found : Option Pattern) : List Node :=
  found.toList.map .pattern

theorem innerPattern_grows (hnested : Grows levels nested patternRow) :
    Grows levels (unlessClosed nested) fun found => patternRow found.join := by
  intro s found s' _ h
  have hgrown := unlessClosed_grows hnested trivial h
  cases found with
  | none => exact hgrown
  | some inner => simpa using hgrown

theorem parenPatternAfter_grows (hnested : Grows levels nested patternRow) (start : Location)
    (head : Token) :
    GrowsAfter headed levels levels start [] (parenPatternAfter nested start head)
      fun found => [.pattern found] := by
  unfold parenPatternAfter
  split
  · exact .step (innerPattern_grows hnested) fun _ => .close (fun _ => rfl) (by simp)
  · exact .close (fun _ => rfl) (by simp)

theorem wordPatternAfter_grows (hnested : Grows levels nested patternRow) (token : Token) :
    GrowsAfter headed levels levels token.location [] (wordPatternAfter nested token)
      fun found => [.pattern found] := by
  unfold wordPatternAfter
  split
  · exact .step (innerPattern_grows hnested) fun _ => .node (fun _ => rfl) (by simp)
  · refine .place (fun _ => rfl) (fun _ => ?_) fun _ => ?_
    · split <;> rfl
    · split <;> exact ⟨rfl, rfl, rfl⟩

theorem literalPattern_grows :
    GrowsWhen levels (·.current = token) (literalPattern token) patternRow := by
  rintro s found s' rfl h
  unfold literalPattern at h
  split at h
  · next hliteral =>
      have hahead : s.ahead ≠ [] := ne_nil_of_current fun hend => by
        simp [hend, TokenKind.isLiteral] at hliteral
      obtain ⟨value, s₁, hvalue, h⟩ := bind_eq_done.mp h
      have hrest : GrowsAfter false levels levels s.current.location
        [.expr (.literal value.1 value.2)] (do
          pure (some (.literal (← infoFrom s.current.location) value.1 value.2))) patternRow :=
        .node (fun _ => rfl) (by simp)
      exact hrest (begun_of_grown (literal_grows hahead hvalue) (cons_ne_nil _ _)) h
  · cases h
    exact .refl _ _

theorem patternWith_grows (hnested : Grows levels nested patternRow) :
    Grows levels (patternWith nested) patternRow := by
  intro s found s' _ h
  have hahead (hkind : s.current.kind ≠ .endOfInput) := ne_nil_of_current hkind
  rw [patternWith, peek_bind_run] at h
  cases hkind : s.current.kind with
  | leftParen =>
      have hparen (head : Token) : GrowsWhen levels (·.ahead ≠ []) (parenPattern nested head)
          fun found => [.pattern found] :=
        advance_grows (fun _ h => h) fun _ _ => .skip advance_behaves fun _ =>
          parenPatternAfter_grows hnested _ head
      simp only [hkind, ask_bind_run] at h
      split at h
      · exact (hparen _).give some (fun _ => rfl) (hahead (by simp [hkind])) h
      · cases h
        exact .refl _ _
  | keyword =>
      have hword : GrowsWhen levels (fun s₁ => s₁.ahead ≠ [] ∧ s₁.current = s.current)
          (wordPattern nested s.current) fun found => [.pattern found] :=
        advance_grows (fun _ h => h.1) fun s₁ h => by
          rw [h.2]
          exact wordPatternAfter_grows hnested s.current
      simp only [hkind] at h
      exact hword.give some (fun _ => rfl) ⟨hahead (by simp [hkind]), rfl⟩ h
  | identifier =>
      have hidentifier : GrowsAfter true levels levels s.current.location [] (do
          pure (some (.identifier (← infoFrom s.current.location) s.current.value))) patternRow :=
        .node (fun _ => rfl) (by simp)
      simp only [hkind, advance_bind_run] at h
      exact hidentifier (begun_of_reads ⟨hahead (by simp [hkind]), .refl _⟩
        (advance_nextId s)) h
  | _ =>
      simp only [hkind] at h
      exact literalPattern_grows _ rfl h

theorem patternWithin_grows : Grows levels (patternWithin bound) patternRow := by
  induction bound with
  | zero =>
      intro s found s' _ h
      cases h
      exact .refl _ _
  | succ bound ih => exact patternWith_grows ih

end Patterns

/-! ## Expressions -/

section Expressions

variable {nested : Parser Expr}

abbrev exprRow (expr : Expr) : List Node :=
  [.expr expr]

theorem body_grows (hnested : Grows levels nested exprRow) :
    Grows levels (body nested) (·.flatMap exprRow) :=
  repeatWhile_grows hnested.when

theorem letBinding_grows (hnested : Grows levels nested exprRow) :
    GrowsWhen levels (·.sees .leftParen = true) (letBinding nested) fun entry => [.binding entry] :=
  advance_grows (fun _ h => ne_nil_of_sees h (by decide)) fun _ _ =>
    .skip (expectName_behaves _) fun _ => .step hnested fun _ => .close (fun _ => rfl) (by simp)

theorem patternWithin_none {bound : Nat} (h : patternWithin bound s = .done none s') : s' = s := by
  cases bound with
  | zero =>
      cases h
      rfl
  | succ bound =>
      rw [patternWithin, patternWith, peek_bind_run] at h
      cases hkind : s.current.kind with
      | leftParen =>
          simp only [hkind, ask_bind_run] at h
          split at h
          · simp [bind_eq_done] at h
          · cases h
            rfl
      | keyword | identifier => simp [hkind, bind_eq_done] at h
      | _ =>
          simp only [hkind, literalPattern] at h
          split at h
          · simp [bind_eq_done] at h
          · cases h
            rfl

theorem armPattern?_none_eq (h : armPattern? s = .done none s') : s' = s := by
  rw [armPattern?, ask_bind_run] at h
  split at h
  · cases h
    rfl
  · exact patternWithin_none h

theorem armPattern?_grows : Grows levels armPattern? patternRow := by
  intro s found s' _ h
  rw [armPattern?, ask_bind_run] at h
  split at h
  · cases h
    exact .refl _ _
  · exact patternWithin_grows _ trivial h

theorem matchArm_grows (hnested : Grows levels nested exprRow) :
    GrowsWhen levels (inBody · = true) (matchArm nested) fun arm => [.arm arm] := by
  intro s arm s' hbody h
  rw [matchArm, peek_bind_run] at h
  obtain ⟨found, s₁, hfound, h⟩ := bind_eq_done.mp h
  obtain ⟨pattern, s₂, hpattern, h⟩ := bind_eq_done.mp h
  have hend (pattern : Pattern) (expr : Option Expr) :
    GrowsAfter false levels levels s.current.location
      (.pattern pattern :: expr.toList.flatMap exprRow)
      (do pure (⟨← infoFrom s.current.location, pattern, expr.toList⟩ : Arm Expr))
      fun arm => [.arm arm] :=
    .node (fun _ => rfl) (by simp)
  cases found with
  | some found =>
      cases hpattern
      have hrest : GrowsAfter false levels levels s.current.location [.pattern pattern] (do
          let expr ← unlessClosed nested
          pure (⟨← infoFrom s.current.location, pattern, expr.toList⟩ : Arm Expr)) fun arm =>
            [.arm arm] :=
        .step (unlessClosed_grows hnested) (hend pattern)
      exact hrest (begun_of_grown (armPattern?_grows trivial hfound) (cons_ne_nil _ _)) h
  | none =>
      obtain rfl := armPattern?_none_eq hfound
      cases hpattern
      obtain ⟨expr, s₃, hexpr, h⟩ := bind_eq_done.mp h
      have hstill : ({ s₁ with nextId := s₁.nextId + 1 } : State).inBody = true := hbody
      rw [unlessClosed, ask_bind_run, if_pos hstill] at hexpr
      obtain ⟨value, s₄, hvalue, hexpr⟩ := bind_eq_done.mp hexpr
      cases hexpr
      exact hend _ (some value) (begun_of_grown
        (.absent (hnested trivial hvalue) (cons_ne_nil _ _)) (cons_ne_nil _ _)) h

abbrev fieldRow (entry : Named Expr) : List Node :=
  [.field entry]

theorem parenField_grows (hnested : Grows levels nested exprRow) :
    Grows levels (parenField nested) (·.toList.flatMap fieldRow) :=
  expect_grows (by decide) fun _ _ => .branch
    (.skip (expectName_behaves _) fun _ => .step hnested fun _ => .close (fun _ => rfl) (by simp))
    (.skip advance_behaves fun _ => .give rfl)

theorem flatMap_filterMap_id {γ : Type} (node : γ → List Node) (found : List (Option γ)) :
    (found.filterMap id).flatMap node = found.flatMap (·.toList.flatMap node) := by
  induction found with
  | nil => rfl
  | cons first rest ih =>
      cases first with
      | none => exact ih
      | some value =>
          have hcons : (some value :: rest).filterMap id = value :: rest.filterMap id := rfl
          rw [hcons, flatMap_cons, ih]
          simp

theorem braceField_grows (hnested : Grows levels nested exprRow) :
    Grows levels (braceField nested) fieldRow :=
  expectName_grows fun _ _ => .skip (expect_behaves _ _) fun _ => .step hnested fun _ =>
    .node (fun _ => rfl) (by simp)

theorem braceTuple_grows (hnested : Grows levels nested exprRow) :
    GrowsWhen (levels + 1) (·.ahead ≠ []) (braceTuple nested) exprRow :=
  advance_grows (fun _ h => h) fun _ _ => .step (separated_grows (braceField_grows hnested))
    fun _ => .skip (expect_behaves _ _) fun _ => .node (fun _ => rfl) (by simp)

theorem callee_grows (horderly : Orderly nested) : Grows levels (callee nested) fun _ => [] := by
  have hdropped : Grows levels (do
      reportHere "Expected function name"
      let _ ← unlessClosed nested
      pure placeholder) fun _ => [] :=
    reportHere_then_grows fun _ => .bind (unlessClosed_behaves horderly) fun _ => pure_behaves _
  intro s name s' _ h
  rw [callee, peek_bind_run] at h
  split at h
  · exact dottedName_behaves.grows trivial h
  · exact hdropped trivial h

theorem callExpr_grows (hnested : Grows levels nested exprRow) (horderly : Orderly nested)
    (start : Location) : GrowsAfter true levels (levels + 1) start []
      (callExpr nested start) exprRow :=
  .step (callee_grows horderly) fun _ => .step (body_grows hnested) fun _ =>
    .close (fun _ => rfl) (by simp)

theorem specialForm?_grows (hnested : Grows levels nested exprRow)
    {form} (hform : specialForm? keyword = some form)
    (start : Location) :
    GrowsAfter headed levels (levels + 1) start [] (form nested start) exprRow := by
  unfold specialForm? at hform
  split at hform <;> cases hform
  · exact .step (parenthesized_grows _ _ (repeatWhile_grows (letBinding_grows hnested))) fun _ =>
      .step (body_grows hnested) fun _ => .close (fun _ => rfl) (by simp)
  · exact .step (body_grows hnested) fun _ => .close (fun _ => rfl) (by simp)
  · exact .step hnested fun _ => .step hnested fun _ => .step (unlessClosed_grows hnested) fun _ =>
      .close (fun _ => rfl) (by simp)
  · exact .step hnested fun _ => .step (repeatWhile_grows (matchArm_grows hnested)) fun _ =>
      .close (fun _ => rfl) (by simp)
  · exact .step (body_grows hnested) fun _ => .close (fun _ => rfl) (by simp)
  · refine .step (repeatWhile_grows (parenField_grows hnested).when) fun _ =>
      .close (fun _ => rfl) fun _ => ?_
    rw [nil_append, ← flatMap_filterMap_id]
    exact map_eq_flatMap

theorem missing_grows (location : Location) :
    GrowsWhen levels (·.errors ≠ []) (missing location) exprRow := by
  intro s value s' herrors h
  cases h
  exact .placeholder location herrors

theorem report_missing_grows (code : Code) (message : String) (location place : Location)
    (hcode : code.phase = .parse) : Grows levels (do
      report code message location
      missing place) exprRow := by
  intro s value s' _ h
  have hreport : Grown levels s (s.report code message location) [] :=
    (report_behaves code message location hcode).grows trivial (report_run _ _ _ s)
  exact hreport.append (missing_grows place (by simp) h)

theorem parenExprAfter_grows (hnested : Grows levels nested exprRow) (horderly : Orderly nested)
    (state : State) (start : Location) (head : Token) :
    GrowsAfter true levels (levels + 1) start [] (parenExprAfter nested state start head)
      exprRow := by
  unfold parenExprAfter
  split
  · exact .skip advance_behaves fun _ =>
      .instead (report_missing_grows _ _ _ _ rfl) (Nat.le_succ levels)
  · refine .branch (.skip (report_behaves _ _ _ rfl) fun _ _ _ _ _ _ h => nomatch h) ?_
    split
    · next hform => exact .skip advance_behaves fun _ => specialForm?_grows hnested hform start
    · exact callExpr_grows hnested horderly start
  · exact callExpr_grows hnested horderly start

theorem compoundExpr_grows (hnested : Grows levels nested exprRow) (horderly : Orderly nested) :
    GrowsWhen (levels + 1) (·.ahead ≠ []) (compoundExpr nested) exprRow := by
  intro s value s' hahead h
  have hparen : GrowsWhen (levels + 1) (·.ahead ≠ []) (do
      let start := (← advance).location
      let head ← peek
      parenExprAfter nested s start head) exprRow :=
    advance_grows (fun _ h => h) fun _ _ => .skip peek_behaves fun head =>
      parenExprAfter_grows hnested horderly s _ head
  rw [compoundExpr, ask_bind_run] at h
  split at h
  · exact hparen hahead h
  · exact braceTuple_grows hnested hahead h

theorem reads_of_dottedName {name} (hahead : s.ahead ≠ [])
    (h : dottedName s = .done name s') : s.Reads s' := by
  obtain ⟨token, rest, hcons⟩ := exists_cons_of_ne_nil hahead
  have hprevious : s.advance.previous = s.current := by rw [advance_eq hcons, current_eq hcons]
  rw [dottedName_run] at h
  cases h
  exact ⟨hahead, .skip (hprevious ▸ dottedTail_passes _ _ _ _)⟩

/-- The one place where a node is a name: it starts at the token that the name is read from. -/
theorem nameExpr_grows : GrowsWhen levels (·.ahead ≠ []) nameExpr exprRow := by
  intro s value s' hahead h
  rw [nameExpr, peek_bind_run] at h
  obtain ⟨name, s₁, hname, h⟩ := bind_eq_done.mp h
  have hreads := reads_of_dottedName hahead hname
  cases h
  exact .node (dottedName_behaves.grows trivial hname) (.refl _ _) (Nat.le_refl _) rfl (.inr hreads)
    (.inl hreads)

theorem literalExpr_grows : GrowsWhen levels (·.ahead ≠ []) literalExpr exprRow := by
  intro s value s' hahead h
  have hlocal : GrowsWhen levels (·.ahead ≠ []) (do
      let token ← advance
      let name ← dottedName
      pure (.literal (← infoFrom token.location) (.principal "" (some name)))) exprRow :=
    advance_grows (fun _ h => h) fun _ _ =>
      .skip dottedName_behaves fun _ => .node (fun _ => rfl) (by simp)
  rw [literalExpr, peek_bind_run, ask_bind_run] at h
  split at h
  · exact hlocal hahead h
  · split at h
    · exact literal_grows.give (fun found => Expr.literal found.1 found.2) (fun _ => rfl) hahead h
    · exact (advance_behaves.grows trivial (advance_run s)).append
        (report_missing_grows _ _ _ _ rfl trivial h)

theorem exprWith_grows {compound} (hcompound : GrowsWhen levels (·.ahead ≠ []) compound exprRow) :
    Grows levels (exprWith compound) exprRow := by
  intro s value s' _ h
  have hahead (hkind : s.current.kind ≠ .endOfInput) := ne_nil_of_current hkind
  rw [exprWith, peek_bind_run] at h
  cases hkind : s.current.kind with
  | leftParen | leftBrace =>
      simp only [hkind] at h
      exact hcompound (hahead (by simp [hkind])) h
  | identifier | keyword =>
      simp only [hkind] at h
      exact nameExpr_grows (hahead (by simp [hkind])) h
  | rightParen | endOfInput =>
      simp only [hkind] at h
      exact report_missing_grows _ _ _ _ rfl trivial h
  | _ =>
      simp only [hkind] at h
      exact literalExpr_grows (hahead (by simp [hkind])) h

theorem skipNested_grows : Grows levels skipNested exprRow := by
  intro s value s' _ h
  rw [skipNested, peek_bind_run] at h
  obtain ⟨_, s₁, hreport, h⟩ := bind_eq_done.mp h
  obtain ⟨_, s₂, hskip, h⟩ := bind_eq_done.mp h
  have hskipped : Grown levels s₁ s₂ [] := by
    cases hskip
    exact .none (passOver_onward s₁) fun _ => rfl
  have herrors : s₂.errors ≠ [] := by
    cases hskip
    cases hreport
    simp [passOver_eq]
  exact ((report_behaves _ _ _ rfl).grows trivial hreport).append
    (hskipped.append (missing_grows _ herrors h))

theorem exprWithin_grows (levels : Nat) : Grows levels (exprWithin levels) exprRow := by
  induction levels with
  | zero => exact exprWith_grows skipNested_grows.when
  | succ levels ih => exact exprWith_grows (compoundExpr_grows ih (exprWithin_orderly levels))

theorem expr_grows : Grows maxNesting expr exprRow :=
  exprWithin_grows maxNesting

end Expressions

/-! ## Forms -/

theorem functionBodyUpTo_grows :
    Grows maxNesting (functionBodyUpTo expr bound) fun found => found.1.flatMap exprRow := by
  induction bound with
  | zero =>
      intro s found s' _ h
      cases h
      exact .refl _ _
  | succ bound ih =>
      intro s found s' _ h
      rw [functionBodyUpTo, ask_bind_run] at h
      split at h
      · obtain ⟨first, s₁, hfirst, h⟩ := bind_eq_done.mp h
        have hitem := unlessInterrupted_grows expr_grows expr_orderly trivial hfirst
        cases first with
        | some first =>
            obtain ⟨rest, s₂, hrest, h⟩ := bind_eq_done.mp h
            cases h
            simpa using hitem.append (ih trivial hrest)
        | none =>
            cases h
            exact hitem
      · cases h
        exact .refl _ _

/-- The tree of a form that may be missing. -/
abbrev formRow (found : Option Form) : List Node :=
  found.toList.flatMap fun form => [.form form]

theorem function_grows (visibility : Visibility) (start : Location) :
    GrowsAfter headed maxNesting maxNesting start [] (function expr visibility start)
      fun result => formRow result.form :=
  .skip (expect_behaves _ _) fun _ => .skip (expectName_behaves _) fun _ =>
    .skip (repeatWhile_behaves parameter_begins.behaves) fun _ => .skip (close_behaves _) fun _ =>
      .step (fun s _ _ _ h => functionBodyUpTo_grows s.ahead.length trivial h) fun _ =>
        .skip (behaves_ite (pure_behaves _) (close_behaves _)) fun _ =>
          .node (fun _ => rfl) (by simp)

/-- A form that is cut short is dropped, with an error. -/
theorem whole_grows {start parser}
    (hparser : GrowsAfter headed maxNesting maxNesting start [] parser fun form => [.form form])
    (horderly : Orderly parser) :
    GrowsAfter headed maxNesting maxNesting start [] (whole parser) fun result =>
      formRow result.form := by
  intro s₀ s result s' hbegun h
  obtain ⟨found, s₁, hfound, h⟩ := bind_eq_done.mp h
  cases h
  unfold unlessInterrupted at hfound
  split at hfound <;> cases hfound
  · next hrun => exact hparser hbegun hrun
  · next hrun => exact hbegun.all.append (grown_of_interrupted horderly hrun)

theorem formAfter?_grows {rest} (h : formAfter? expr keyword = some rest) (start : Location) :
    GrowsAfter headed maxNesting maxNesting start [] (rest start) fun result =>
      formRow result.form := by
  have hname {what : String} : Plain (expectName what) := expectName_behaves what
  unfold formAfter? at h
  split at h <;> cases h
  · exact whole_grows (.skip hname fun _ => .step expr_grows fun _ =>
      .close (fun _ => rfl) (by simp)) (constant_orderly expr_orderly start)
  · exact function_grows _ start
  · exact function_grows _ start
  · exact function_grows _ start
  · exact whole_grows (.skip hname fun _ => .skip typeSpec_behaves fun _ =>
      .skip typeSpec_behaves fun _ => .close (fun _ => rfl) (by simp)) (map_orderly start)
  · exact whole_grows (.skip hname fun _ => .skip typeSpec_behaves fun _ =>
      .step expr_grows fun _ =>
      .close (fun _ => rfl) (by simp)) (dataVar_orderly expr_orderly start)
  · exact whole_grows (.skip hname fun _ => .skip typeSpec_behaves fun _ =>
      .close (fun _ => rfl) (by simp)) (nonFungible_orderly start)
  · exact whole_grows (.skip hname fun _ => .step (unlessClosed_grows expr_grows) fun _ =>
      .close (fun _ => rfl) (by simp)) (fungible_orderly expr_orderly start)
  · exact whole_grows (.skip hname fun _ =>
      .skip (parenthesized_behaves _ _ (repeatWhile_behaves traitFunction_begins.behaves)) fun _ =>
        .close (fun _ => rfl) (by simp)) (trait_orderly start)
  · exact whole_grows (.skip hname fun _ => .step expr_grows fun _ =>
      .close (fun _ => rfl) (by simp)) (useTrait_orderly expr_orderly start)
  · exact whole_grows (.step expr_grows fun _ =>
      .close (fun _ => rfl) (by simp)) (implTrait_orderly expr_orderly start)

theorem form_grows :
    GrowsWhen maxNesting (·.ahead ≠ []) (form expr) fun result => formRow result.form := by
  refine advance_grows (fun _ h => h) fun s _ => .branch
    (.skip (report_behaves _ _ _ rfl) fun _ => .give rfl) (.skip peek_behaves fun head => ?_)
  split
  · next hrest =>
      exact .skip advance_behaves fun _ => formAfter?_grows (formAt?_eq_some.mp hrest).2 _
  · exact .skip (report_behaves _ _ _ rfl) fun _ => .give rfl

theorem formThenResume_grows :
    GrowsWhen maxNesting (·.ahead ≠ []) (formThenResume expr) formRow := by
  intro s found s' hahead h
  rw [formThenResume, peek_bind_run, ask_bind_run] at h
  obtain ⟨result, s₁, hform, h⟩ := bind_eq_done.mp h
  rw [ask_bind_run] at h
  obtain ⟨_, s₂, hresume, h⟩ := bind_eq_done.mp h
  cases h
  simpa using (form_grows hahead hform).append ((resumeIf_behaves _ _).grows trivial hresume)

theorem forms_grown {found}
    (h : repeatWhile (fun state => !state.atEnd) (formThenResume expr) s = .done found s') :
    Grown maxNesting s s' ((found.filterMap id).map .form) := by
  rw [map_eq_flatMap, flatMap_filterMap_id]
  refine repeatWhile_grows (formThenResume_grows.mono fun s hmore hnil => ?_) trivial h
  simp [atEnd_iff.mpr hnil] at hmore

/-- What is read for a contract is its forms, and the contract has the number behind them. -/
theorem contract_grown {contract} (h : Parser.contract expr s = .done contract s') :
    ∃ s₁, Grown maxNesting s s₁ (contract.body.map .form) ∧
      contract.info = ⟨⟨s.current.location, s₁.previous.finish⟩, s₁.nextId⟩ ∧
      s' = { s₁ with nextId := s₁.nextId + 1 } := by
  rw [Parser.contract, peek_bind_run] at h
  obtain ⟨found, s₁, hforms, h⟩ := bind_eq_done.mp h
  cases h
  exact ⟨s₁, forms_grown hforms, rfl, rfl⟩

end ContractAudit.Parser
