import ContractAudit.Proofs.Parse.Clean.Patterns

/-!
# Expressions read without errors

The expression parser reads a spelling of the expression it gives. A text that it reads without
errors with some number of levels is read with fewer of them too: that gives the tree cut down to
its levels, and the only errors are that what is cut off is nested too deeply. For what is cut off,
the parser has to pass over brackets; it stops at the one that closes the expression because the
tokens between them are balanced.
-/

namespace ContractAudit

open Parse List ContractAudit.Expr SpellExpr

def tooDeep (location : Location) : Diagnostic :=
  .error .parse .parseError "Expression nested too deeply (more than 128 levels)" location

namespace Parser

open State Lexeme

variable {numbered : Prop} {levels : Nat} {given keep : State → Prop} {s s' : State} {token : Token}
  {found : Option Pattern} {used : List Lexeme} {start : Location} {value : Expr}

/-! ## Trees and what is cut off them -/

/-- An expression, the same one down to a number of levels, and the errors about the rest. -/
def CutTo (levels : Nat) : Cuts Expr :=
  fun value found errors =>
    found.same (value.cut levels) = true ∧ errors = (value.overdeep levels).map tooDeep

def ListCutTo (levels : Nat) : Cuts (List Expr) :=
  fun values founds errors => sameList founds (cutList levels values) = true ∧
    errors = (overdeepList levels values).map tooDeep

def NamedCutTo (levels : Nat) : Cuts (Named Expr) :=
  fun value found errors => found.info.span = value.info.span ∧ found.name = value.name ∧
    CutTo levels value.value found.value errors

def NamedListCutTo (levels : Nat) : Cuts (List (Named Expr)) :=
  fun values founds errors => sameNamed founds (cutNamed levels values) = true ∧
    errors = (overdeepNamed levels values).map tooDeep

def ArmCutTo (levels : Nat) : Cuts (Arm Expr) :=
  fun value found errors => found.info.span = value.info.span ∧
    found.pattern.same value.pattern = true ∧ ListCutTo levels value.body found.body errors

def ArmListCutTo (levels : Nat) : Cuts (List (Arm Expr)) :=
  fun values founds errors => sameArms founds (cutArms levels values) = true ∧
    errors = (overdeepArms levels values).map tooDeep

section Lists

variable {errors more : List Diagnostic}

attribute [local simp] ListCutTo Expr.cutList Expr.sameList Expr.overdeepList NamedListCutTo
  cutNamed sameNamed overdeepNamed ArmListCutTo cutArms sameArms
  overdeepArms

theorem listCutTo_nil : ListCutTo levels [] [] [] := by simp

theorem namedListCutTo_nil : NamedListCutTo levels [] [] [] := by simp

theorem armListCutTo_nil : ArmListCutTo levels [] [] [] := by simp

theorem CutTo.cons {found : Expr} {values founds} (h : CutTo levels value found errors)
    (hrest : ListCutTo levels values founds more) :
    ListCutTo levels (value :: values) (found :: founds) (errors ++ more) := by
  obtain ⟨hsame, rfl⟩ := h
  obtain ⟨hsame', rfl⟩ := hrest
  simp [hsame, hsame']

theorem NamedCutTo.cons {value found values founds}
    (h : NamedCutTo levels value found errors) (hrest : NamedListCutTo levels values founds more) :
    NamedListCutTo levels (value :: values) (found :: founds) (errors ++ more) := by
  obtain ⟨info, name, expr⟩ := value
  obtain ⟨info', name', expr'⟩ := found
  obtain ⟨hspan, hname, hsame, rfl⟩ := h
  obtain ⟨hsame', rfl⟩ := hrest
  simp only at hspan hname hsame
  simp [hspan, hname, hsame, hsame']

theorem ArmCutTo.cons {value found values founds}
    (h : ArmCutTo levels value found errors) (hrest : ArmListCutTo levels values founds more) :
    ArmListCutTo levels (value :: values) (found :: founds) (errors ++ more) := by
  obtain ⟨info, pattern, body⟩ := value
  obtain ⟨info', pattern', body'⟩ := found
  obtain ⟨hspan, hpattern, hsame, rfl⟩ := h
  obtain ⟨hsame', rfl⟩ := hrest
  simp only at hspan hpattern hsame
  simp [hspan, hpattern, hsame, hsame']

theorem toList_cutTo {body found : Option Expr} (h : Maybe (CutTo levels) body found errors) :
    ListCutTo levels body.toList found.toList errors := by
  cases h with
  | none => exact listCutTo_nil
  | some h => simpa using h.cons listCutTo_nil

end Lists

/-- A spelled expression and what is read for it with a number of levels. -/
abbrev Like (numbered : Prop) (levels : Nat) : Relation Expr :=
  Matches numbered SpellExpr (CutTo levels)

theorem like_of_plain {found : Expr} (hspell : SpellExpr value used)
    (hplain : value.isCompound = false) (hsame : found.same value = true)
    (h : numbered → found = value) : Like numbered levels value used found [] := by
  refine ⟨hspell, ?_, fun hnumbered => ⟨h hnumbered, rfl⟩⟩
  cases levels with
  | zero => simpa [CutTo, cut, overdeep, hplain] using hsame
  | succ levels => cases value <;> simp_all [CutTo, cut, overdeep, isCompound]

/-! ## Plain expressions -/

theorem nameExpr_follows : FollowsWhen numbered (·.current.kind.isName = true) Anchored
    (Like numbered levels) nameExpr nameExpr := by
  refine ⟨nameExpr_orderly.goesOnward,
    fun _ _ _ hruns => hruns.kept.of_onward (nameExpr_orderly.done hruns.done), ?_⟩
  rintro s value s' t id past ⟨hname, hlex, hrun, hclean, hkept⟩ hid
  have hne := (hkept.of_onward (nameExpr_orderly.done hrun)).ne_nil
  rw [nameExpr, peek_bind_run] at hrun
  obtain ⟨name, s₁, hdotted, hnode⟩ := bind_eq_done.mp hrun
  cases hnode
  obtain ⟨used, htook, hspell, hid', htext, helsewhere⟩ :=
    dottedName_elsewhere t id past ⟨hname, hlex, hdotted, hclean, hkept⟩
  refine ⟨used, .identifier ⟨⟨s.current.location, s₁.previous.finish⟩, id⟩ name, id + 1, [],
    ⟨htook.ahead, htook.previous⟩, like_of_plain (.identifier _ _ _ hspell htext) rfl
      (by simp [same]) fun h => by rw [hid', hid h], fun h => by rw [hid', hid h], ?_⟩
  rw [nameExpr, peek_bind_run, elsewhere_current hne, append_nil]
  exact bind_eq_done.mpr ⟨name, _, helsewhere, rfl⟩

theorem literalExpr_follows : Follows numbered (Like numbered levels) literalExpr literalExpr := by
  refine peek_bind_follows fun token =>
    ask_ite_follows (fun s _ _ t id past _ hanchored => ?_) ?_ ?_
  · rw [elsewhere_sees hanchored.ne_nil]
    cases hdot : s.sees .dot with
    | false => rfl
    | true =>
        rw [elsewhere_second hanchored (by simp [sees_iff.mp hdot]) (by simp [sees_iff.mp hdot])]
  · -- A dot and a name: the dot is read, and the name is then ahead.
    refine advance_second_follows (c := '.') (·.kind.isName = true) rfl (fun s h => ?_)
      fun _ => dottedName_follows.bind_same fun name =>
        (node_blind fun finish id id' hid used hspell => like_of_plain
          (by simpa using .localPrincipal _ name used hspell) rfl
          (by simp [same]) fun h => by rw [hid h]).follows fun _ h => h
    obtain ⟨_, hdot⟩ := h
    simp only [Bool.and_eq_true, decide_eq_true_eq] at hdot
    exact ⟨hdot.1, by rw [hdot.2]; rfl⟩
  · split
    · next hliteral =>
        refine ((literal_follows hliteral).mono (fun _ h => h.1.2) fun _ h => h).thenPure
          (fun _ h => h) fun value used found errors h => ?_
        obtain ⟨⟨rfl, hvalue⟩, ⟨rfl, hspan, hsame⟩, hnumbered⟩ := h
        exact like_of_plain (.literal _ _ _ hvalue) rfl (by simp [same, hspan, hsame])
          fun h => by rw [(hnumbered h).1]
    · exact (Dirty.after fun _ => report_dirty fun _ => missing_orderly _).follows
        (.bind advance_behaves fun _ => .bind (report_behaves _ _ _ rfl) fun _ => missing_orderly _)

/-! ## Patterns of arms -/

theorem pattern_rightBrace (h : s.current.kind = .rightBrace) : pattern s = .done none s := by
  obtain ⟨rest, hahead⟩ := ahead_of_current (by simp [h] : s.current.kind ≠ _)
  rw [pattern, hahead, length_cons, patternWithin, patternWith, peek_bind_run, h]
  simp [literalPattern, h, TokenKind.isLiteral]

theorem armPattern?_follows : FollowsWhen numbered (·.inBody = true) Settled
    (Matches numbered SpellInner (Maybe SamePattern)) armPattern? armPattern? := by
  have hpattern : FollowsWhen numbered (fun s => s.inBody = true ∧ s.current.kind ≠ .rightBrace)
      Settled (Matches numbered SpellInner (Maybe SamePattern)) armPattern? armPattern? := by
    refine ask_ite_follows (fun s _ _ t id past hruns hanchored => ?_)
      (pure_follows (fun _ h => h.1) ⟨.absent, .none, fun _ => ⟨rfl, rfl⟩⟩) pattern_follows
    obtain ⟨token, rest, hahead, hkind⟩ := inBody_iff.mp hruns.given.1
    rw [elsewhere_sees hanchored.ne_nil,
      elsewhere_second hanchored (by rwa [current_eq hahead]) hruns.given.2]
  have hbrace ⦃s : State⦄ (h : s.current.kind = .rightBrace) : armPattern? s = .done none s := by
    rw [armPattern?, ask_bind_run]
    split
    · rfl
    · exact pattern_rightBrace h
  refine ⟨hpattern.onward, fun s value s' hruns => ?_, fun s value s' t id past hruns hid => ?_⟩
  · exact hruns.kept.1.of_onward (hpattern.onward hruns.done)
  · by_cases hkind : s.current.kind = .rightBrace
    · have hrun := hruns.done
      rw [hbrace hkind] at hrun
      cases hrun
      refine ⟨[], none, id, [], .refl s, ⟨.absent, .none, fun _ => ⟨rfl, rfl⟩⟩, hid, ?_⟩
      rw [hbrace (by rwa [elsewhere_current hruns.kept.1.ne_nil]), append_nil]
    · exact hpattern.follow t id past
        ⟨⟨hruns.given, hkind⟩, hruns.lexical, hruns.done, hruns.clean, hruns.kept⟩ hid

theorem orAbsent_blind {value errors}
    (h : Matches numbered SpellInner (Maybe SamePattern) value used found errors) :
    Blind numbered (fun x y => errors = [] ∧ y.same x = true ∧ (numbered → y = x) ∧
      (SpellPattern x used ∨ value = none ∧ used = [] ∧ ∃ info, x = .none info))
      (orAbsent start value) (orAbsent start found) := by
  obtain ⟨hspell, hcut, hsame⟩ := h
  cases hcut with
  | none =>
      cases hspell
      intro s _ s' t id past hrun hid
      cases hrun
      exact ⟨rfl, Nat.le_succ _, _, id + 1,
        ⟨rfl, by simp [Pattern.same], fun h => by rw [hid h]; rfl,
        .inr ⟨rfl, rfl, _, rfl⟩⟩, fun h => by rw [hid h], rfl⟩
  | some hsome =>
      cases hspell with
      | present _ _ hpattern =>
          exact pure_blind ⟨hsome.2, hsome.1, fun h => by simpa using (hsame h).1, .inl hpattern⟩

/-! ## Expressions in brackets -/

section Compound

variable {nested nested' : Parser Expr} (h : Follows numbered (Like numbered levels) nested nested')

include h

theorem body_follows : FollowsWhen numbered given Closing
    (Matches numbered SpellExprs (ListCutTo levels)) (body nested) (body nested') :=
  repeatInBody_follows (lists_matches .nil listCutTo_nil fun _ _ _ _ _ _ => CutTo.cons)
    ((h.when fun _ h => h).imp fun _ _ _ _ hitem => hitem.respell fun hexpr rest lexemes hrest =>
      .cons _ _ rest lexemes hexpr hrest)

theorem optional_follows : FollowsWhen numbered given Anchored
    (Matches numbered SpellOptional (Maybe (CutTo levels))) (unlessClosed nested)
    (unlessClosed nested') :=
  unlessClosed_follows (fun _ h => h) (fun _ _ _ => ⟨.absent, .none, fun _ => ⟨rfl, rfl⟩⟩)
    (fun _ _ _ _ h => ⟨.present _ _ h.spelled, .some h.cut, fun hnumbered => by
      simp [h.same hnumbered]⟩) h

theorem letBinding_follows : FollowsWhen numbered (·.sees .leftParen = true) Anchored
    (Matches numbered (Prepends SpellBindings) (NamedCutTo levels)) (letBinding nested)
    (letBinding nested') := by
  refine advance_open_follows.bind_same fun _ => (expectName_follows _).bind_same fun name =>
    h.bind fun value found => (node_blind fun finish id id' hid => ?_).close
  rintro first errors ⟨hspell, hcut, hsame⟩ _ ⟨hname, rfl⟩ _ rfl
  rw [append_nil]
  refine ⟨fun rest lexemes hrest => ?_, ⟨rfl, rfl, hcut⟩, fun h => by simp [hid h, hsame h]⟩
  simpa [parens] using SpellBindings.cons _ name value first rest lexemes hname hspell hrest

theorem settled_of_arm (horderly : Orderly nested) {arm} (hruns : Runs (fun _ => True) Anchored (do
      let pattern ← orAbsent start found
      let expr ← unlessClosed nested
      pure (⟨← infoFrom start, pattern, expr.toList⟩ : Arm Expr)) s arm s') : Settled s := by
  obtain ⟨_, hlex, hrun, hclean, hkept⟩ := hruns
  obtain ⟨pattern, s₁, habsent, hrun⟩ := bind_eq_done.mp hrun
  obtain ⟨expr, s₂, hexpr, hnode⟩ := bind_eq_done.mp hrun
  cases hnode
  have honward₁ := (orAbsent_orderly start found).done habsent
  have honward₂ := (unlessClosed_behaves horderly).done hexpr
  refine ⟨Anchored.of_onward (honward₁.trans honward₂) hkept, fun hopen more => ?_⟩
  -- The form here is read as an expression.
  have hahead : s₁.ahead = s.ahead := by cases found <;> · cases habsent; rfl
  have hkind := sees_iff.mp hopen
  obtain ⟨others, hcurrent⟩ := ahead_of_current (by simp [hkind] : s.current.kind ≠ _)
  have hbody : s₁.inBody = true :=
    inBody_iff.mpr ⟨s.current, others, hahead.trans hcurrent, by simp [hkind]⟩
  rw [unlessClosed, ask_bind_run, if_pos hbody] at hexpr
  obtain ⟨value, s₃, hvalue, hsome⟩ := bind_eq_done.mp hexpr
  cases hsome
  obtain ⟨used, _, _, _, htook, hlike, _⟩ := h.follow s₁ s₁.nextId []
    ⟨trivial, hahead ▸ hlex, hvalue, hclean, hkept⟩ fun _ => rfl
  have hused : s.ahead = used ++ s₂.ahead := hahead.symm.trans htook.ahead
  cases used with
  | nil => exact absurd rfl hlike.spelled.ne_nil
  | cons first used =>
      have hfirst : first.kind = .leftParen := by
        rw [current_eq hused] at hkind
        exact hkind
      rw [hused]
      exact moreFollows_settled hlike.spelled.balanced rfl hfirst
        (Anchored.ne_nil (s := s₂) hkept) more

theorem matchArm_follows (horderly : Orderly nested) :
    FollowsWhen numbered (·.inBody = true) Anchored
      (Matches numbered (Prepends SpellArms) (ArmCutTo levels)) (matchArm nested)
      (matchArm nested') := by
  refine peek_bind_follows fun token => (armPattern?_follows.mono (fun _ h => h.1)
    fun _ h => h).bind_between (fun found s => found = none → s.inBody = true) (fun found => ?_)
    (fun _ _ _ _ _ _ hruns => settled_of_arm h horderly hruns) ?_
      fun value used found errors hfound =>
    (orAbsent_blind hfound).bind_follows (fun _ _ h => h) (fun pattern pattern' hpattern => ?_) ?_
  · exact (Behaves.bind (orAbsent_orderly _ found) fun _ => .bind (unlessClosed_behaves horderly)
      fun _ => node_orderly _ _).goesOnward
  · -- Without a pattern nothing is read before the body, so the form is not at its end.
    rintro s _ s₁ hruns rfl
    obtain ⟨used, _, _, _, htook, hmatches, _⟩ := armPattern?_follows.follow s s.nextId []
      ⟨hruns.given.1, hruns.lexical, hruns.done, hruns.clean, hruns.kept⟩ fun _ : numbered => rfl
    have hnil : lexemes used = [] := by
      generalize lexemes used = found at hmatches
      cases hmatches.spelled
      rfl
    rw [map_eq_nil_iff.mp hnil] at htook
    have hbody := hruns.given.1
    rw [inBody_iff] at hbody ⊢
    rwa [htook.ahead] at hbody
  · obtain ⟨rfl, hsame, hnumbered, hspell⟩ := hpattern
    have hbody : FollowsWhen numbered (fun s => value = none → s.inBody = true) Anchored
        (fun body used body' errors => Matches numbered SpellOptional (Maybe (CutTo levels))
          body used
          body' errors ∧ (value = none → body ≠ none)) (unlessClosed nested)
        (unlessClosed nested') :=
      unlessClosed_follows (fun _ h => h)
        (fun s hgiven hend => ⟨⟨.absent, .none, fun _ => ⟨rfl, rfl⟩⟩, fun hnone => by
          simp [hgiven hnone] at hend⟩)
        (fun _ _ _ _ h => ⟨⟨.present _ _ h.spelled, .some h.cut, fun hnumbered => by
          simp [h.same hnumbered]⟩, fun _ => Option.some_ne_none _⟩) h
    refine hbody.bind fun body body' => (node_blind
      fun finish id id' hid second errors h => ?_).follows fun _ h => h
    obtain ⟨⟨hoptional, hcut, hsame'⟩, hpresent⟩ := h
    refine ⟨fun rest lexemes hrest => ?_, ⟨rfl, hsame, by simpa using toList_cutTo hcut⟩,
      fun h => by
      simp [hid h, hnumbered h, hsame' h]⟩
    rw [append_nil]
    obtain hpattern | ⟨rfl, rfl, patternInfo, rfl⟩ := hspell
    · exact .arm _ pattern used body second rest lexemes hpattern hoptional hrest
    · cases hoptional with
      | absent => exact absurd rfl (hpresent rfl)
      | present expr _ hexpr => exact .absent _ patternInfo expr second rest lexemes hexpr hrest
  · exact fun _ => ((unlessClosed_behaves horderly).bind fun _ => node_orderly _ _).goesOnward

theorem parenField_follows : FollowsWhen numbered given Anchored
    (fun value used found errors => ∃ field field', value = some field ∧ found = some field' ∧
      Matches numbered (Prepends SpellParenFields) (NamedCutTo levels) field used field' errors)
    (parenField nested) (parenField nested') := by
  refine peek_bind_follows fun token => expect_bind_follows (c := '(') rfl ?_
    (.bind advance_behaves fun _ => pure_behaves _)
  refine (expectName_follows _).bind_same fun name => h.bind fun value found =>
    (node_blind fun finish id id' hid => ?_).close
  rintro first errors ⟨hspell, hcut, hsame⟩ _ ⟨hname, rfl⟩
  rw [append_nil]
  refine ⟨_, _, rfl, rfl, fun rest lexemes hrest => ?_, ⟨rfl, rfl, hcut⟩, fun h => by
    simp [hid h, hsame h]⟩
  simpa [parens, leftParen] using
    SpellParenFields.cons _ name value first rest lexemes hname hspell hrest

def SpellBraceField (field : Named Expr) (lexemes : List Lexeme) : Prop :=
  ∃ first, IsName field.name ∧ SpellExpr field.value first ∧
    lexemes = word field.name :: colon :: first

theorem braceField_follows : Follows numbered
    (Matches numbered SpellBraceField (NamedCutTo levels)) (braceField nested)
    (braceField nested') := by
  refine peek_bind_follows fun token => (expectName_follows _).bind_same fun name =>
    (expect_follows (c := ':') rfl _).bind_same fun _ => h.bind fun value found =>
      (node_blind fun finish id id' hid => ?_).follows fun _ h => h
  rintro first errors ⟨hspell, hcut, hsame⟩ _ ⟨_, rfl⟩ _ ⟨hname, rfl⟩
  rw [append_nil, append_nil]
  exact ⟨⟨first, hname, hspell, by simp [colon]⟩, ⟨rfl, rfl, hcut⟩, fun h => by
    simp [hid h, hsame h]⟩

/-- A compound expression that starts at a location. -/
def SpellCompound (start : Location) (expr : Expr) (lexemes : List Lexeme) : Prop :=
  expr.isCompound = true ∧ expr.location = start ∧ SpellExpr expr lexemes

attribute [local simp] CutTo Expr.cut Expr.same Expr.overdeep

theorem braceTuple_follows (hkind : token.kind = .leftBrace) :
    FollowsWhen numbered (·.current = token) keep
      (Matches numbered (SpellCompound token.location) (CutTo (levels + 1))) (braceTuple nested)
      (braceTuple nested') := by
  have hlists : CommaLists (Matches numbered SpellBraceField (NamedCutTo levels))
      (Matches numbered SpellBraceFields (NamedListCutTo levels)) := by
    refine ⟨⟨.nil, namedListCutTo_nil, fun _ => ⟨rfl, rfl⟩⟩, ?_, ?_⟩
    · rintro ⟨info, name, value⟩ _ found errors ⟨⟨first, hname, hspell, rfl⟩, hcut, hsame⟩
      refine ⟨.last info name value first hname hspell, ?_, fun h => by simp [hsame h]⟩
      simpa using hcut.cons namedListCutTo_nil
    · rintro ⟨info, name, value⟩ _ found errors values later founds more
        ⟨⟨first, hname, hspell, rfl⟩, hcut, hsame⟩ ⟨hrest, hcut', hsame'⟩
      exact ⟨.cons info name value first values later hname hspell hrest, hcut.cons hcut',
        fun h => by simp [hsame h, hsame' h]⟩
  refine (advance_follows (· = token) fun _ h => h).bind_same fun opening =>
    separated_follows hlists (braceField_follows h) fun fields fields' =>
      node_blind fun finish id id' hid => ?_
  rintro used errors ⟨hspell, ⟨hsame, rfl⟩, hnumbered⟩ _ ⟨rfl, hlexical, rfl⟩
  rw [hlexical.eq_of_punctuation (c := '\x7b') rfl hkind]
  refine ⟨⟨rfl, rfl, .braceTuple _ fields used hspell⟩, ?_, fun h => by simp [hid h, hnumbered h]⟩
  simp [hsame]

omit h in
theorem callee_follows (horderly : Orderly nested) :
    Follows numbered (Same SpellName) (callee nested) (callee nested') := by
  refine peek_bind_follows fun token => ?_
  split
  · next hname =>
      exact dottedName_follows.mono (fun s h => h.2 ▸ hname) fun _ h => h
  · exact reportHere_follows _ fun _ =>
      .bind (unlessClosed_behaves horderly) fun _ => pure_behaves _

theorem callExpr_follows (horderly : Orderly nested) (start : Location) :
    FollowsWhen numbered given keep (fun value used found errors => Matches numbered
      (SpellCompound start) (CutTo (levels + 1)) value (leftParen :: used) found errors)
      (callExpr nested start) (callExpr nested' start) := by
  refine (callee_follows horderly).bind_same fun name => (body_follows h).thenClose
    fun args args' => node_blind fun finish id id' hid => ?_
  rintro used errors ⟨hspell, ⟨hsame, rfl⟩, hnumbered⟩ first hname
  refine ⟨⟨rfl, rfl, ?_⟩, ?_, fun h => by simp [hid h, hnumbered h]⟩
  · simpa [parens] using call _ name first args used hname hspell
  · simp [hsame]

theorem specialForm?_follows (horderly : Orderly nested) {keyword}
    {form} (hform : specialForm? keyword = some form)
    (start : Location) :
    FollowsWhen numbered given keep (fun value used found errors => Matches numbered
      (SpellCompound start) (CutTo (levels + 1)) value (leftParen :: word keyword :: used) found
        errors) (form nested start) (form nested' start) := by
  unfold specialForm? at hform
  split at hform <;> cases hform
  · refine (parenthesized_follows _ _ (repeatOpen_follows (lists_matches .nil namedListCutTo_nil
      fun _ _ _ _ _ _ => NamedCutTo.cons) (letBinding_follows h))).bind fun bindings bindings' =>
      (body_follows h).thenClose fun exprs exprs' => node_blind fun finish id id' hid => ?_
    rintro used errors ⟨hspell, ⟨hsame, rfl⟩, hnumbered⟩ _ errors'
      ⟨first, rfl, hspell', ⟨hsame', rfl⟩, hnumbered'⟩
    refine ⟨⟨rfl, rfl, ?_⟩, ?_, fun h => by simp [hid h, hnumbered h, hnumbered' h]⟩
    · simpa [parens] using letIn _ bindings first exprs used hspell' hspell
    · simp [hsame, hsame']
  · refine (body_follows h).thenClose fun exprs exprs' => node_blind fun finish id id' hid => ?_
    rintro used errors ⟨hspell, ⟨hsame, rfl⟩, hnumbered⟩
    refine ⟨⟨rfl, rfl, .block _ exprs used hspell⟩, ?_, fun h => by simp [hid h, hnumbered h]⟩
    simp [hsame]
  · refine h.bind fun condition condition' => h.bind fun yes yes' => (optional_follows h).bind
      fun no no' => (node_blind fun finish id id' hid => ?_).close
    rintro third errors₃ ⟨hspell₃, hcut₃, hnumbered₃⟩ second errors₂
      ⟨hspell₂, ⟨hsame₂, rfl⟩, hnumbered₂⟩ first errors₁ ⟨hspell₁, ⟨hsame₁, rfl⟩, hnumbered₁⟩
    refine ⟨⟨rfl, rfl, ?_⟩, ?_, fun h => by simp [hid h, hnumbered₁ h, hnumbered₂ h, hnumbered₃ h]⟩
    · simpa [parens] using
        conditional _ condition yes no first second third hspell₁ hspell₂ hspell₃
    · cases hcut₃ with
      | none => simp [hsame₁, hsame₂]
      | some hno =>
          obtain ⟨hsame₃, rfl⟩ := hno
          simp [hsame₁, hsame₂, hsame₃]
  · refine h.bind fun subject subject' => (repeatInBody_follows (lists_matches .nil
      armListCutTo_nil fun _ _ _ _ _ _ => ArmCutTo.cons) (matchArm_follows h horderly)).thenClose
      fun arms arms' => node_blind fun finish id id' hid => ?_
    rintro used errors ⟨hspell, ⟨hsame, rfl⟩, hnumbered⟩ first errors'
      ⟨hspell', ⟨hsame', rfl⟩, hnumbered'⟩
    refine ⟨⟨rfl, rfl, ?_⟩, ?_, fun h => by simp [hid h, hnumbered h, hnumbered' h]⟩
    · simpa [parens] using matchOn _ subject first arms used hspell' hspell
    · simp [hsame, hsame']
  · refine (body_follows h).thenClose fun exprs exprs' => node_blind fun finish id id' hid => ?_
    rintro used errors ⟨hspell, ⟨hsame, rfl⟩, hnumbered⟩
    refine ⟨⟨rfl, rfl, .list _ exprs used hspell⟩, ?_, fun h => by simp [hid h, hnumbered h]⟩
    simp [hsame]
  · have hlists : Lists (fun value used found errors => ∃ field field', value = some field ∧
        found = some field' ∧ Matches numbered (Prepends SpellParenFields) (NamedCutTo levels) field
          used field' errors)
        (fun values used founds errors => Matches numbered SpellParenFields (NamedListCutTo levels)
          (values.filterMap id) used (founds.filterMap id) errors) := by
      refine ⟨⟨.nil, namedListCutTo_nil, fun _ => ⟨rfl, rfl⟩⟩, ?_⟩
      rintro _ used _ errors values later founds more
        ⟨field, field', rfl, rfl, hspell, hcut, hsame⟩ ⟨hrest, hcut', hsame'⟩
      refine ⟨hspell _ _ hrest, hcut.cons hcut', fun h => ?_⟩
      obtain ⟨rfl, rfl⟩ := hsame h
      obtain ⟨hfounds, rfl⟩ := hsame' h
      exact ⟨congrArg (field' :: ·) hfounds, rfl⟩
    refine (repeatInBody_follows hlists (parenField_follows h)).thenClose fun fields fields' =>
      node_blind fun finish id id' hid => ?_
    rintro used errors ⟨hspell, ⟨hsame, rfl⟩, hnumbered⟩
    refine ⟨⟨rfl, rfl, .parenTuple _ _ used hspell⟩, ⟨?_, rfl⟩, fun h => ?_⟩
    · rw [cut, same, hsame, Bool.and_true]
      exact decide_eq_true rfl
    · rw [hid h, (hnumbered h).1, (hnumbered h).2]
      exact ⟨rfl, rfl⟩

theorem parenExprAfter_follows (horderly : Orderly nested) (before before' : State)
    (start : Location) (head : Token) :
    FollowsWhen numbered (·.current = head) keep (fun value used found errors => Matches numbered
      (SpellCompound start) (CutTo (levels + 1)) value (leftParen :: used) found errors)
      (parenExprAfter nested before start head) (parenExprAfter nested' before' start head) := by
  unfold parenExprAfter
  cases hkind : head.kind with
  | rightParen =>
      exact (Dirty.after fun _ => report_dirty fun _ => missing_orderly _).follows
        (.bind advance_behaves fun _ => .bind (report_behaves _ _ _ rfl) fun _ => missing_orderly _)
  | keyword =>
      dsimp only
      split
      · exact follows_of_undone (fun s value s' hrun => by simp [bind_eq_done, interrupt] at hrun)
          fun s value s' _ hrun => by simp [bind_eq_done, interrupt] at hrun
      · cases hform : specialForm? head.value with
        | some form =>
            refine (advance_name_follows (by simp [hkind, TokenKind.isName])).bind_same fun _ =>
              (specialForm?_follows h horderly hform start).imp ?_
            rintro _ _ _ _ hmatches _ ⟨_, _, rfl⟩
            exact hmatches
        | none => exact callExpr_follows h horderly start
  | _ => exact callExpr_follows h horderly start

theorem compoundExpr_follows (horderly : Orderly nested)
    (hkind : token.kind = .leftParen ∨ token.kind = .leftBrace) :
    FollowsWhen numbered (·.current = token) keep
      (Matches numbered (SpellCompound token.location) (CutTo (levels + 1))) (compoundExpr nested)
      (compoundExpr nested') := by
  refine ask_ite_follows (fun _ _ _ _ _ _ _ hanchored => elsewhere_sees hanchored.ne_nil _)
    (ask_any_follows fun before before' => ?_) ?_
  · refine (advance_follows (fun found => found = token ∧ found.kind = .leftParen) ?_).bind_same
      fun opening => peek_bind_follows fun head =>
        ((parenExprAfter_follows h horderly before before' opening.location head).mono
          (fun _ h => h.2) fun _ h => h).imp ?_
    · rintro s ⟨rfl, hopen⟩
      exact ⟨rfl, sees_iff.mp hopen⟩
    · rintro _ _ _ _ hmatches _ ⟨⟨rfl, hopen⟩, hlexical, rfl⟩
      rw [hlexical.eq_of_punctuation (c := '(') rfl hopen]
      exact hmatches
  · rcases hkind with hparen | hbrace
    · refine follows_of_undone (braceTuple_begins horderly).behaves.goesOnward
        fun s _ _ hgiven => ?_
      simp [State.sees, hgiven.1, hparen] at hgiven
    · exact (braceTuple_follows h hbrace).mono (fun _ h => h.1) fun _ h => h

end Compound

/-! ## Passing over an expression -/

theorem skipNested_dirty : Dirty skipNested :=
  Dirty.after fun _ => report_dirty fun _ => .bind passOver_behaves fun _ => missing_orderly _

theorem skipNested_follows {more : Nat} (hnumbered : ¬numbered)
    (hkind : token.kind = .leftParen ∨ token.kind = .leftBrace)
    (h : Follows numbered (Like numbered more) (exprWithin more) (exprWithin more)) :
    FollowsWhen numbered (·.current = token) keep (Like numbered 0)
      (compoundExpr (exprWithin more)) skipNested := by
  have hfollows : FollowsWhen numbered _ keep _ _ _ :=
    compoundExpr_follows h (exprWithin_orderly more) hkind
  refine ⟨hfollows.onward, hfollows.anchored, fun s value s' t id past hruns _ => ?_⟩
  obtain ⟨used, _, _, _, htook, ⟨⟨hcompound, hstart, hspell⟩, _⟩, _⟩ :=
    hfollows.follow s s.nextId [] hruns fun _ => rfl
  -- The tokens that are read are those up to the bracket that closes the expression.
  have hskip := skipBrackets_of_spelled hspell hcompound s.previous (s'.ahead ++ t.ahead)
  rw [← append_assoc, ← htook.ahead, ← htook.previous] at hskip
  have hrest : s'.ahead ++ t.ahead <:+ s.ahead ++ t.ahead :=
    ⟨used, by rw [htook.ahead, append_assoc]⟩
  have hrun : skipNested (s.elsewhere t id past) =
      .done (.identifier ⟨.point (s.elsewhere t id past).current.location, id⟩ placeholder)
        (s'.elsewhere t (id + 1)
          (past ++ [tooDeep (s.elsewhere t id past).current.location])) := by
    show Step.done _ { passOver ((s.elsewhere t id past).report _ _ _) with nextId := _ } = _
    rw [passOver_of_skip hskip hrest]
    rfl
  rw [elsewhere_current (hfollows.anchored hruns).ne_nil] at hrun
  refine ⟨used, _, id + 1, [tooDeep s.current.location], htook,
    ⟨hspell, ?_, fun h => absurd h hnumbered⟩, fun h => absurd h hnumbered, hrun⟩
  simp [CutTo, cut, overdeep, hcompound, stub, same, hruns.given, ← hstart,
    location]

/-! ## Expressions -/

theorem exprWith_follows {compound compound'}
    (h : ∀ token : Token, token.kind = .leftParen ∨ token.kind = .leftBrace →
      FollowsWhen numbered (·.current = token) Anchored (Like numbered levels) compound compound') :
    Follows numbered (Like numbered levels) (exprWith compound) (exprWith compound') := by
  refine peek_bind_follows fun token => ?_
  cases hkind : token.kind with
  | leftParen | leftBrace => exact (h token (by simp [hkind])).mono (fun _ h => h.2) fun _ h => h
  | identifier | keyword =>
      exact nameExpr_follows.mono (fun s h => by simp [h.2, hkind, TokenKind.isName]) fun _ h => h
  | rightParen | endOfInput => exact reportHere_follows _ fun _ => missing_orderly _
  | _ => exact literalExpr_follows.when fun _ h => h

/-- With fewer levels, the same expression is read down to them. With as many, it is the same. -/
theorem exprWithin_follows (levels more : Nat) (hlevels : numbered → more = levels) :
    Follows numbered (Like numbered levels) (exprWithin more) (exprWithin levels) := by
  induction more generalizing levels numbered with
  | zero =>
      cases levels <;>
        exact exprWith_follows fun _ _ => skipNested_dirty.follows skipNested_orderly
  | succ more ih =>
      cases levels with
      | zero =>
          exact exprWith_follows fun token hkind =>
            skipNested_follows (fun h => nomatch hlevels h) hkind (ih more fun _ => rfl)
      | succ levels =>
          exact exprWith_follows fun token hkind => (compoundExpr_follows
            (ih levels fun h => Nat.succ.inj (hlevels h)) (exprWithin_orderly more) hkind).imp
              fun _ _ _ _ h => h.respell fun hspell => hspell.2.2

theorem expr_follows (numbered : Prop) : Follows numbered (Like numbered maxNesting) expr expr :=
  exprWithin_follows maxNesting maxNesting fun _ => rfl

end Parser

end ContractAudit
