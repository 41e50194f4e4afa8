import ContractAudit.Proofs.Parse.Loops

/-!
# Every round reads a token

What the loops of the parser go round with: types and their fields and parameters, patterns,
expressions and the parts of them. Some of these parsers may end without reading anything, at a
closing parenthesis or at the end of input, but no loop runs them there. An expression that a
definition interrupts does not end with a value, so that its loop does not go on.
-/

namespace ContractAudit.Parser

open Parse State Behaves Advances

variable {α : Type} {s s' : State} {count : Nat} {found : Option Pattern}

/-! ## Types -/

section Types

variable {nested nested' : Parser TypeSpec}

section

variable (horderly : Orderly nested) (h : AgreeUpTo count nested nested')

include horderly h

theorem typeParam_agree : AgreeUpTo count (typeParam nested) (typeParam nested') :=
  .after peek_behaves.goesOnward fun _ => agree_ite (.refl _)
    (.bind h horderly.goesOnward fun _ => .refl _)

theorem parenTypeField_agree : AgreeUpTo count (parenTypeField nested) (parenTypeField nested') :=
  .after advance_behaves.goesOnward fun _ => .after (expectName_behaves _).goesOnward fun _ =>
    .bind h horderly.goesOnward fun _ => .refl _

theorem braceTypeField_agree : AgreeUpTo count (braceTypeField nested) (braceTypeField nested') :=
  .after (expectName_behaves _).goesOnward fun _ => .after (expect_behaves _ _).goesOnward fun _ =>
    .bind h horderly.goesOnward fun _ => .refl _

end

theorem typeSpecWith_agree (hplain : Plain nested) (h : AgreeUpTo count nested nested') :
    AgreeUpTo (count + 1) (typeSpecWith nested) (typeSpecWith nested') := by
  have hfield := (parenTypeField_begins hplain).behaves.orderly
  have hparam := (typeParam_behaves hplain).orderly
  have hbrace := (braceTypeField_behaves hplain).orderly
  refine .after peek_behaves.goesOnward fun token => ?_
  cases token.kind with
  | leftParen =>
      refine .afterAdvance fun _ => .after (expectName_behaves _).goesOnward fun _ =>
        agree_ite ?_ ?_
      · exact .bind (repeatWhile_agree (parenTypeField_agree hplain.orderly h) hfield)
          (repeatWhile_behaves hfield).goesOnward fun _ => .refl _
      · exact .bind (repeatWhile_agree (typeParam_agree hplain.orderly h) hparam)
          (repeatWhile_behaves hparam).goesOnward fun _ => .refl _
  | leftBrace =>
      exact .afterAdvance fun _ => .bind
        (separated_agree (braceTypeField_agree hplain.orderly h) hbrace)
        (separated_behaves hbrace).goesOnward fun _ => .refl _
  | _ => exact .refl _

/-- A type may nest to any depth. -/
theorem typeSpec_unfolds : typeSpec = typeSpecWith typeSpec := by
  refine (eq_of_levels typeSpecWithin (fun _ => rfl) (fun s nested hahead => ?_)
    fun h => typeSpecWith_agree (typeSpecWithin_behaves _) h).2
  rw [typeSpecWithin, typeSpecWith, peek_bind_run, kind_of_nil hahead]

theorem badType_advances : Advances (inBody · = true) badType := by
  refine peek_advances fun token => ?_
  by_cases hkind : token.kind = .rightParen
  · rintro s _ _ ⟨hbody, rfl⟩
    exact absurd hkind (kind_of_inBody hbody).1
  · refine mono (reportHere_advances fun _ => ?_) fun s hs =>
      ne_nil_of_inBody hs.1
    rw [if_pos hkind]
    exact advance_advances fun _ => goesOnward (.bind (spanFrom_behaves _) fun _ =>
      pure_behaves _)

theorem typeSpecWith_advances (hplain : Plain nested) :
    Advances (inBody · = true) (typeSpecWith nested) := by
  have hmono {parser : Parser TypeSpec} {token : Token} (h : Begins .orderly parser) :
      Advances (fun s => s.inBody = true ∧ s.current = token) parser :=
    h.advances.mono fun _ hs => ne_nil_of_inBody hs.1
  refine peek_advances fun token => ?_
  cases token.kind with
  | identifier | keyword => exact hmono (wordType_begins token)
  | leftBrace => exact hmono (braceType_begins hplain.orderly)
  | leftParen => exact hmono (parenType_begins hplain.orderly)
  | _ => exact badType_advances.mono fun _ h => h.1

theorem typeSpec_advances : Advances (inBody · = true) typeSpec := by
  rw [typeSpec_unfolds]
  exact typeSpecWith_advances typeSpec_behaves

theorem integer_goesOnward (text : String) : GoesOnward (integer text) := by
  intro s value s' h
  obtain ⟨_, rfl⟩ := integer_eq_done.mp h
  exact .refl _

theorem typeParam_advances (hnested : Advances (inBody · = true) nested) :
    Advances (inBody · = true) (typeParam nested) := by
  refine peek_advances fun token => advances_ite (fun _ => ?_) fun _ => ?_
  · have hsize : Advances (·.ahead ≠ []) (do pure (.size (← integer (← advance).value)) :
        Parser TypeParam) :=
      advance_advances fun _ => (integer_goesOnward _).bind fun _ => (pure_behaves _).goesOnward
    exact hsize.mono fun _ h => ne_nil_of_inBody h.1
  · exact (hnested.bind fun _ => (pure_behaves _).goesOnward).mono fun _ h => h.1

end Types

/-! ## Patterns -/

section Patterns

variable {nested nested' : Parser (Option Pattern)}

section

variable (horderly : Orderly nested) (h : AgreeUpTo count nested nested')

include horderly h

theorem parenPatternAfter_agree (start : Location) (head : Token) :
    AgreeUpTo count (parenPatternAfter nested start head)
      (parenPatternAfter nested' start head) := by
  unfold parenPatternAfter
  cases Wrapper.ofLabel? head.value with
  | some kind =>
      exact .bind (unlessClosed_agree h horderly) (unlessClosed_behaves horderly).goesOnward
        fun _ => .refl _
  | none => exact .refl _

theorem wordPatternAfter_agree (token : Token) :
    AgreeUpTo count (wordPatternAfter nested token) (wordPatternAfter nested' token) := by
  unfold wordPatternAfter
  cases Wrapper.ofLabel? token.value with
  | some kind =>
      exact .bind (unlessClosed_agree h horderly) (unlessClosed_behaves horderly).goesOnward
        fun _ => .refl _
  | none => exact .refl _

theorem patternWith_agree : AgreeUpTo (count + 1) (patternWith nested) (patternWith nested') := by
  refine .after peek_behaves.goesOnward fun token => ?_
  cases token.kind with
  | leftParen =>
      refine .after (ask_behaves _).goesOnward fun head => .after (ask_behaves _).goesOnward
        fun _ => agree_ite (.bind ?_ (parenPattern_begins horderly head).behaves.goesOnward fun _ =>
          .refl _) (.refl _)
      exact .afterAdvance fun _ => .after advance_behaves.goesOnward fun _ =>
        parenPatternAfter_agree horderly h _ head
  | keyword =>
      refine .bind ?_ (wordPattern_begins horderly token).behaves.goesOnward fun _ => .refl _
      exact .afterAdvance fun _ => wordPatternAfter_agree horderly h token
  | _ => exact .refl _

end

theorem patternWithin_levels : (∀ {levels levels' : Nat}, levels ≤ levels' →
      AgreeUpTo levels (patternWithin levels) (patternWithin levels')) ∧
    pattern = patternWith pattern := by
  refine eq_of_levels patternWithin (fun _ => rfl) (fun s nested hahead => ?_)
    fun h => patternWith_agree (patternWithin_orderly _) h
  have hkind := kind_of_nil hahead
  rw [patternWithin, patternWith, peek_bind_run, hkind]
  simp [literalPattern, hkind, TokenKind.isLiteral]

theorem patternWithin_eq {levels levels' : Nat} (hlength : s.ahead.length ≤ levels)
    (hlevels : levels ≤ levels') : patternWithin levels s = patternWithin levels' s :=
  patternWithin_levels.1 hlevels s hlength

theorem literal_advances : Advances (·.ahead ≠ []) literal :=
  advance_advances fun _ => GoesOnward.bind (fun _ _ _ h => by
    rw [literalValue_eq_done h]
    exact .refl _) fun _ => goesOnward (node_orderly _ _)

theorem pattern_cases (hahead : s.ahead ≠ []) (h : pattern s = .done found s') :
    (found = none ∧ s' = s) ∨ s'.ahead.length < s.ahead.length := by
  rw [patternWithin_levels.2, patternWith, peek_bind_run] at h
  cases hkind : s.current.kind with
  | leftParen =>
      simp only [hkind, ask_bind_run] at h
      split at h
      · exact .inr (((parenPattern_begins pattern_orderly _).advances.bind fun _ =>
          (pure_behaves _).goesOnward) hahead h)
      · cases h
        exact .inl ⟨rfl, rfl⟩
  | keyword =>
      simp only [hkind] at h
      exact .inr (((wordPattern_begins pattern_orderly _).advances.bind fun _ =>
        (pure_behaves _).goesOnward) hahead h)
  | identifier =>
      simp only [hkind] at h
      exact .inr ((advance_advances fun _ => goesOnward (node_orderly _ _)) hahead h)
  | _ =>
      simp only [hkind, literalPattern] at h
      split at h
      · exact .inr ((literal_advances.bind fun _ => goesOnward
          (node_orderly _ _)) hahead h)
      · cases h
        exact .inl ⟨rfl, rfl⟩

end Patterns

/-! ## Expressions -/

section Expressions

variable {nested : Parser Expr}

theorem dottedName_advances : Advances (·.ahead ≠ []) dottedName := by
  intro s name s' hs h
  rw [dottedName_run] at h
  cases h
  obtain ⟨token, rest, hahead⟩ := List.exists_cons_of_ne_nil hs
  have hle := (dottedTail_suffix s.current s.current.value s.advance.ahead).length_le
  have hless := s.length_advance
  rw [hahead, List.length_cons] at hless ⊢
  show (dottedTail s.current s.current.value s.advance.ahead).2.2.length < _
  omega

theorem skipBrackets_shorter (previous : Token) {token : Token} (h : token.kind ≠ .endOfInput)
    (rest : List Token) :
    (skipBrackets previous 0 (token :: rest)).2.length < (token :: rest).length := by
  have hrest (level : Nat) : (skipBrackets token level rest).2.length < (token :: rest).length := by
    have hle := (skipBrackets_suffix token level rest).length_le
    rw [List.length_cons]
    omega
  unfold skipBrackets
  split
  case h_5 hend => exact absurd hend h
  all_goals exact hrest _

theorem skipNested_advances : Advances (·.ahead ≠ []) skipNested := by
  intro s value s' hs h
  cases h
  obtain ⟨token, rest, hahead⟩ := List.exists_cons_of_ne_nil hs
  have hless := skipBrackets_shorter s.previous
    (s.live token (hahead ▸ List.mem_cons_self)) rest
  rw [← hahead] at hless
  show (passOver (s.report _ _ _)).ahead.length < _
  rw [passOver_eq]
  exact hless

theorem parenExprAfter_goesOnward (horderly : Orderly nested) (before : State) (start : Location)
    (head : Token) : GoesOnward (parenExprAfter nested before start head) := by
  unfold parenExprAfter
  cases head.kind with
  | rightParen =>
      exact goesOnward (.bind advance_behaves fun _ => .bind (report_behaves _ _ _ rfl) fun _ =>
        missing_orderly _)
  | keyword =>
      dsimp only
      split
      · intro s value s' h
        cases h
      · split
        · next hform =>
            exact goesOnward (.bind advance_behaves fun _ =>
              specialForm?_orderly horderly hform _)
        · exact (callExpr_orderly horderly _).goesOnward
  | _ => exact (callExpr_orderly horderly _).goesOnward

theorem compoundExpr_advances (horderly : Orderly nested) :
    Advances (·.ahead ≠ []) (compoundExpr nested) := by
  have hparen : Advances (·.ahead ≠ []) (parenExpr nested) :=
    ask_advances fun before => mono (advance_advances fun _ =>
      peek_behaves.goesOnward.bind fun head => parenExprAfter_goesOnward horderly _ _ head)
      fun _ h => h.1
  exact ask_advances fun _ => advances_ite (fun _ => hparen.mono fun _ h => h.1)
    fun _ => (braceTuple_begins horderly).advances.mono fun _ h => h.1

theorem nameExpr_advances : Advances (·.ahead ≠ []) nameExpr :=
  peek_advances fun _ => (dottedName_advances.bind fun _ => goesOnward
    (node_orderly _ _)).mono fun _ h => h.1

theorem literalExpr_advances : Advances (·.ahead ≠ []) literalExpr := by
  refine peek_advances fun token => ask_advances fun isLocal => ?_
  refine mono ?_ fun _ h => h.1.1
  refine advances_ite (fun _ => ?_) fun _ => advances_ite (fun _ => ?_) fun _ => ?_
  · exact advance_advances fun _ => goesOnward (.bind dottedName_behaves fun _ =>
      node_orderly _ _)
  · exact literal_advances.bind fun _ => (pure_behaves _).goesOnward
  · exact advance_advances fun _ => goesOnward (.bind (report_behaves _ _ _ rfl) fun _ =>
      missing_orderly _)

theorem exprWith_advances {compound} (h : Advances (·.ahead ≠ []) compound) :
    Advances (inBody · = true) (exprWith compound) := by
  refine peek_advances fun token => ?_
  cases hkind : token.kind with
  | leftParen | leftBrace => exact h.mono fun _ h => ne_nil_of_inBody h.1
  | identifier | keyword => exact nameExpr_advances.mono fun _ h => ne_nil_of_inBody h.1
  | rightParen =>
      rintro s _ _ ⟨hbody, rfl⟩
      exact absurd hkind (kind_of_inBody hbody).1
  | endOfInput =>
      rintro s _ _ ⟨hbody, rfl⟩
      exact absurd hkind (kind_of_inBody hbody).2
  | _ => exact literalExpr_advances.mono fun _ h => ne_nil_of_inBody h.1

theorem exprWithin_advances (levels : Nat) : Advances (inBody · = true) (exprWithin levels) := by
  cases levels with
  | zero => exact exprWith_advances skipNested_advances
  | succ levels => exact exprWith_advances (compoundExpr_advances (exprWithin_orderly levels))

theorem parenField_advances (horderly : Orderly nested) :
    Advances (·.ahead ≠ []) (parenField nested) := by
  intro s value s' hs h
  rw [parenField, peek_bind_run] at h
  obtain ⟨opened, s₁, hexpect, h⟩ := bind_eq_done.mp h
  rw [expect_run] at hexpect
  split at hexpect <;> cases hexpect
  · have honward := done (.bind (expectName_behaves _) fun _ => .bind horderly fun _ =>
      closeNode_orderly _ _ _) h
    have hle := honward.ahead.length_le
    have hless := length_advance s
    have hpos := List.length_pos_iff.mpr hs
    omega
  · exact (advance_advances fun _ => (pure_behaves _).goesOnward) (s := s.reportHere _) hs h

theorem unlessClosed_advances {item : Parser α} (hitem : Advances (inBody · = true) item) :
    Advances (inBody · = true) (unlessClosed item) := by
  intro s value s' hs h
  rw [unlessClosed, ask_bind_run, if_pos hs] at h
  exact (hitem.bind fun _ => (pure_behaves _).goesOnward) hs h

theorem armPattern?_cases (hahead : s.ahead ≠ [])
    (h : armPattern? s = .done found s') :
    (found = none ∧ s' = s) ∨ s'.ahead.length < s.ahead.length := by
  rw [armPattern?, ask_bind_run] at h
  split at h
  · cases h
    exact .inl ⟨rfl, rfl⟩
  · exact pattern_cases hahead h

theorem matchArm_advances (horderly : Orderly nested)
    (hnested : Advances (inBody · = true) nested) :
    Advances (inBody · = true) (matchArm nested) := by
  intro s value s' hs h
  rw [matchArm, peek_bind_run] at h
  obtain ⟨found, s₁, hfound, h⟩ := bind_eq_done.mp h
  have hinfo {expr : Option Expr} {pattern : Pattern} : GoesOnward (do
      pure ⟨← infoFrom s.current.location, pattern, expr.toList⟩ : Parser (Arm Expr)) :=
    goesOnward (node_orderly _ _)
  rcases armPattern?_cases (ne_nil_of_inBody hs) hfound with ⟨rfl, rfl⟩ | hshorter
  · -- Without a pattern the expression is still to be read.
    obtain ⟨_, s₂, habsent, h⟩ := bind_eq_done.mp h
    cases habsent
    exact ((unlessClosed_advances hnested).bind fun _ => hinfo)
      (s := { s₁ with nextId := s₁.nextId + 1 }) hs h
  · have honward : GoesOnward (do
        let pattern ← orAbsent s.current.location found
        let expr ← unlessClosed nested
        pure ⟨← infoFrom s.current.location, pattern, expr.toList⟩ : Parser (Arm Expr)) := by
      refine GoesOnward.bind ?_ fun _ => (unlessClosed_behaves horderly).goesOnward.bind
        fun _ => hinfo
      cases found with
      | some found => exact (pure_behaves _).goesOnward
      | none => exact goesOnward (.bind (infoAt_orderly _) fun _ => pure_behaves _)
    have hle := (honward h).ahead.length_le
    omega

end Expressions

/-! ## Bodies of functions -/

/-- An expression of a function body and what comes after it, unless the body ends or a definition
cuts it short. -/
def bodyRound (loop : Parser (List Expr × Bool)) : Parser (List Expr × Bool) := do
  if ← ask inBody then
    match ← unlessInterrupted expr with
    | some first =>
        let (rest, cut) ← loop
        pure (first :: rest, cut)
    | none => pure ([], true)
  else
    pure ([], false)

theorem unlessInterrupted_eq_some {parser} {value : α}
    (h : unlessInterrupted parser s = .done (some value) s') : parser s = .done value s' := by
  unfold unlessInterrupted at h
  split at h <;> cases h
  assumption

theorem bodyRound_congr {loop loop'}
    (h : ∀ first s₁, s.inBody = true → expr s = .done first s₁ → loop s₁ = loop' s₁) :
    bodyRound loop s = bodyRound loop' s := by
  rw [bodyRound, bodyRound, ask_bind_run, ask_bind_run]
  split
  · next hbody =>
      show Parser.bind (unlessInterrupted expr) _ s = Parser.bind (unlessInterrupted expr) _ s
      unfold Parser.bind
      cases hfirst : unlessInterrupted expr s with
      | done found s₁ =>
          cases found with
          | some first =>
              exact bind_congr_run (h first s₁ hbody (unlessInterrupted_eq_some hfirst)) _
          | none => rfl
      | _ => rfl
  · rfl

theorem functionBody_unfolds : functionBody expr = bodyRound (functionBody expr) := by
  funext s
  refine (unbounded (functionBodyUpTo expr) bodyRound (fun _ => rfl) ?_ ?_).2 s
  · intro s loop hahead
    have hstop : s.inBody = false := Bool.eq_false_iff.mpr fun h => ne_nil_of_inBody h hahead
    rw [bodyRound, ask_bind_run, hstop]
    rfl
  · exact fun s bound loop h => bodyRound_congr fun first s₁ hbody hfirst =>
      h s₁ (exprWithin_advances maxNesting hbody hfirst)

end ContractAudit.Parser
