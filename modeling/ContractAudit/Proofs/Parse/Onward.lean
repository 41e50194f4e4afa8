import ContractAudit.Proofs.Parse.Run

/-!
# Parsers go onward

A parser reads tokens, uses up numbers and adds errors, and takes none of it back: `Onward` relates
the states before and after. A run that is interrupted goes back only to the parenthesis where the
definition starts, and has recorded an error; one that fails has met a numeral that denotes no
integer. `Orderly` says so of a parser. `Steady` says in addition that a run is never interrupted,
and `Plain` that no number is used up either. `Behaves` is the three in one; it passes from the
parts of a parser to the whole.
-/

namespace ContractAudit

open List Text.Numeral

open Parse

variable {result : ParseResult} {more : State → Bool} {error : Text.Numeral.Error}

/-- Among the tokens there is a numeral that denotes no integer, for the given reason. -/
def Refuses (tokens : List Token) (error : Text.Numeral.Error) : Prop :=
  ∃ token ∈ tokens, (token.kind = .int ∨ token.kind = .uint) ∧
    read token.value = .error error

/-- Some of the tokens are read and the rest is left. The token read last was `previous` before and
is `last` now: the last one of those read, unless the end of input was read after them all. -/
def Passes (finish previous : Token) (tokens : List Token) (last : Token) (rest : List Token) :
    Prop :=
  ∃ used, tokens = used ++ rest ∧ (last = used.getLastD previous ∨ rest = [] ∧ last = finish)

namespace Passes

variable {finish previous last last' token : Token} {tokens rest rest' : List Token}

theorem refl (finish previous : Token) (tokens : List Token) :
    Passes finish previous tokens previous tokens :=
  ⟨[], rfl, .inl rfl⟩

theorem suffix (h : Passes finish previous tokens last rest) : rest <:+ tokens := by
  obtain ⟨used, hused, _⟩ := h
  exact ⟨used, hused.symm⟩

theorem cons (previous : Token) (h : Passes finish token tokens last rest) :
    Passes finish previous (token :: tokens) last rest := by
  obtain ⟨used, hused, hlast⟩ := h
  exact ⟨token :: used, by rw [hused, cons_append], by rwa [getLastD_cons]⟩

theorem trans (h : Passes finish previous tokens last rest)
    (h' : Passes finish last rest last' rest') : Passes finish previous tokens last' rest' := by
  obtain ⟨used, rfl, hlast⟩ := h
  obtain ⟨used', rfl, hlast'⟩ := h'
  refine ⟨used ++ used', by rw [append_assoc], ?_⟩
  rcases hlast' with rfl | hend
  · rcases hlast with rfl | ⟨hnil, rfl⟩
    · left
      simp [getLastD_eq_getLast?, getLast?_append, Option.getD_or]
    · -- The first run has read everything, so the second one reads nothing.
      obtain ⟨rfl, rfl⟩ := append_eq_nil_iff.mp hnil
      exact .inr ⟨rfl, rfl⟩
  · exact .inr hend

end Passes

/-- A state that a parser can get to from another one. -/
structure Parse.State.Onward (s s' : State) : Prop where
  passes : Passes s.finish s.previous s.ahead s'.previous s'.ahead
  finish : s'.finish = s.finish
  beyond : s'.beyond = s.beyond
  errors : s.errors <+: s'.errors
  phase : ∀ error ∈ s'.errors, error ∈ s.errors ∨ error.phase = .parse ∧ error.code.phase = .parse
  nextId : s.nextId ≤ s'.nextId

namespace Parse.State.Onward

variable {s s₁ s' : State}

theorem ahead (h : s.Onward s') : s'.ahead <:+ s.ahead :=
  h.passes.suffix

theorem quiet (hpasses : Passes s.finish s.previous s.ahead s'.previous s'.ahead)
    (herrors : s'.errors = s.errors)
    (hnextId : s.nextId ≤ s'.nextId) (hfinish : s'.finish = s.finish)
    (hbeyond : s'.beyond = s.beyond) : s.Onward s' :=
  ⟨hpasses, hfinish, hbeyond, herrors ▸ prefix_refl _, fun _ herror =>
    .inl (herrors ▸ herror), hnextId⟩

theorem refl (s : State) : s.Onward s :=
  .quiet (.refl _ _ _) rfl (Nat.le_refl _) rfl rfl

theorem trans (h : s.Onward s₁) (h' : s₁.Onward s') : s.Onward s' where
  passes := h.passes.trans (h.finish ▸ h'.passes)
  finish := h'.finish.trans h.finish
  beyond := h'.beyond.trans h.beyond
  errors := h.errors.trans h'.errors
  phase := fun error herror => (h'.phase error herror).elim (h.phase error) .inr
  nextId := Nat.le_trans h.nextId h'.nextId

theorem advance (s : State) : s.Onward s.advance := by
  cases hahead : s.ahead with
  | nil =>
      rw [State.advance_of_nil hahead]
      exact refl s
  | cons token rest =>
      have hpasses : Passes s.finish s.previous s.ahead token rest := by
        rw [hahead]
        exact .cons _ (.refl _ _ _)
      rw [State.advance_eq hahead]
      exact .quiet hpasses rfl (Nat.le_refl _) rfl rfl

theorem report (s : State) (code : Code) (message : String) (location : Location)
    (hcode : code.phase = .parse) : s.Onward (s.report code message location) where
  passes := .refl _ _ _
  finish := rfl
  beyond := rfl
  errors := prefix_append _ _
  phase := fun error herror => by
    rw [report_errors, mem_append, mem_singleton] at herror
    exact herror.imp_right fun hnew => by
      rw [hnew]
      exact ⟨rfl, hcode⟩
  nextId := Nat.le_refl _

theorem reportHere (s : State) (message : String) : s.Onward (s.reportHere message) :=
  report s _ _ _ rfl

theorem errors_eq (h : s.Onward s₁) (h' : s₁.Onward s') (hclean : s'.errors = s.errors) :
    s₁.errors = s.errors ∧ s'.errors = s₁.errors := by
  have hback : s₁.errors <+: s.errors := hclean ▸ h'.errors
  have heq : s₁.errors = s.errors :=
    hback.eq_of_length (Nat.le_antisymm hback.length_le h.errors.length_le)
  exact ⟨heq, hclean.trans heq.symm⟩

theorem skip {previous : Token} {rest} (h : Passes s.finish s.previous s.ahead previous rest) :
    s.Onward (s.readTo previous rest h.suffix) :=
  .quiet h rfl (Nat.le_refl _) rfl rfl

end Parse.State.Onward

namespace Parser

variable {α β : Type} {s s' : State} {first : Parser α} {next : α → Parser β} {keyword : String}
  (levels : Nat) (what : String) (start : Location) (line : Int) (message : String)
  (location : Location) (make : NodeInfo → α) (finish last previous : Token) (name : String)
  (level : Nat) (tokens : List Token)

/-- What runs of a parser may do: be interrupted and number nodes, only number nodes, or neither. -/
inductive Conduct where
  | orderly
  | steady
  | plain
  deriving DecidableEq

variable {conduct : Conduct}

/-- How a run from a state may end: onward of it, with one more error if interrupted, and failed
only because of a numeral ahead. -/
def EndsOnward (conduct : Conduct) (s : State) : Step α → Prop
  | .done _ s' => s.Onward s' ∧ (conduct = .plain → s'.nextId = s.nextId)
  | .interrupted s' => conduct = .orderly ∧ s.Onward s' ∧ s.errors.length < s'.errors.length
  | .failed error => Refuses s.ahead error

theorem EndsOnward.of_onward {s₁ : State} {step : Step α} (honward : s.Onward s₁)
    (hnextId : conduct = .plain → s₁.nextId = s.nextId) (h : EndsOnward conduct s₁ step) :
    EndsOnward conduct s step := by
  cases step with
  | done value s' => exact ⟨honward.trans h.1, fun hplain => (h.2 hplain).trans (hnextId hplain)⟩
  | interrupted s' =>
      exact ⟨h.1, honward.trans h.2.1, Nat.lt_of_le_of_lt honward.errors.length_le h.2.2⟩
  | failed error =>
      obtain ⟨token, htoken, hrefused⟩ := h
      exact ⟨token, honward.ahead.subset htoken, hrefused⟩

/-- However a run of the parser ends, it goes onward, an interruption is reported, and only a
numeral makes it fail. -/
def Behaves (conduct : Conduct) (parser : Parser α) : Prop :=
  ∀ s, EndsOnward conduct s (parser s)

abbrev Orderly (parser : Parser α) : Prop :=
  Behaves .orderly parser

abbrev Steady (parser : Parser α) : Prop :=
  Behaves .steady parser

/-- A parser that only reads tokens and records errors: it numbers no node and is not
interrupted. -/
abbrev Plain (parser : Parser α) : Prop :=
  Behaves .plain parser

/-- A run that ends with a value goes onward. -/
def GoesOnward (parser : Parser α) : Prop :=
  ∀ ⦃s value s'⦄, parser s = .done value s' → s.Onward s'

theorem GoesOnward.bind (hfirst : GoesOnward first) (hnext : ∀ value, GoesOnward (next value)) :
    GoesOnward (first >>= next) := by
  intro s found s' h
  obtain ⟨value, s₁, hrun, hrest⟩ := bind_eq_done.mp h
  exact (hfirst hrun).trans (hnext value hrest)

namespace Behaves

variable {parser : Parser α} {value : α}

theorem orderly (h : Behaves conduct parser) : Orderly parser := by
  intro s
  have hend := h s
  cases hstep : parser s with
  | done value s' =>
      rw [hstep] at hend
      exact ⟨hend.1, nofun⟩
  | interrupted s' =>
      rw [hstep] at hend
      exact ⟨rfl, hend.2⟩
  | failed error =>
      rw [hstep] at hend
      exact hend

theorem done (hparser : Orderly parser) (h : parser s = .done value s') : s.Onward s' := by
  have hend := hparser s
  rw [h] at hend
  exact hend.1

theorem goesOnward (h : Orderly parser) : GoesOnward parser :=
  fun _ _ _ => h.done

theorem nextId (hparser : Plain parser) (h : parser s = .done value s') : s'.nextId = s.nextId := by
  have hend := hparser s
  rw [h] at hend
  exact hend.2 rfl

theorem interrupted (hparser : Orderly parser) (h : parser s = .interrupted s') :
    s.Onward s' ∧ s.errors.length < s'.errors.length := by
  have hend := hparser s
  rw [h] at hend
  exact hend.2

theorem not_interrupted (hparser : Steady parser) : parser s ≠ .interrupted s' := by
  intro h
  have hend := hparser s
  rw [h] at hend
  cases hend.1

theorem failed (hparser : Orderly parser) (h : parser s = .failed error) :
    Refuses s.ahead error := by
  have hend := hparser s
  rwa [h] at hend

theorem bind (hfirst : Behaves conduct first) (hnext : ∀ value, Behaves conduct (next value)) :
    Behaves conduct (first >>= next) := by
  intro s
  have hend := hfirst s
  show EndsOnward conduct s (Parser.bind first next s)
  unfold Parser.bind
  cases hstep : first s with
  | done value s₁ =>
      rw [hstep] at hend
      exact (hnext value s₁).of_onward hend.1 hend.2
  | interrupted s₁ =>
      rw [hstep] at hend
      exact hend
  | failed error =>
      rw [hstep] at hend
      exact hend

end Behaves

theorem behaves_of_done {parser} {value : State → α} {after : State → State}
    (h : ∀ s, parser s = .done (value s) (after s)) (honward : ∀ s, State.Onward s (after s))
    (hnextId : conduct = .plain → ∀ s, (after s).nextId = s.nextId) : Behaves conduct parser := by
  intro s
  rw [h]
  exact ⟨honward s, fun hplain => hnextId hplain s⟩

theorem behaves_ite {p : Prop} [Decidable p] {second} (hfirst : Behaves conduct first)
    (hsecond : Behaves conduct second) : Behaves conduct (if p then first else second) := by
  split
  · exact hfirst
  · exact hsecond

/-! ## Basic parsers -/

theorem pure_behaves (value : α) : Behaves conduct (pure value : Parser α) :=
  behaves_of_done (pure_run value) State.Onward.refl fun _ _ => rfl

theorem ask_behaves (question : State → α) : Behaves conduct (ask question) :=
  behaves_of_done (ask_run question) State.Onward.refl fun _ _ => rfl

theorem peek_behaves : Behaves conduct peek :=
  ask_behaves _

theorem spanFrom_behaves : Behaves conduct (spanFrom start) :=
  ask_behaves _

theorem advance_behaves : Behaves conduct advance :=
  behaves_of_done advance_run State.Onward.advance fun _ => State.advance_nextId

/-- The parser reads a token and behaves from there on. -/
def Begins (conduct : Conduct) (parser : Parser α) : Prop :=
  ∃ next, parser = (advance >>= next) ∧ ∀ token, Behaves conduct (next token)

theorem Begins.behaves {parser : Parser α} (h : Begins conduct parser) :
    Behaves conduct parser := by
  obtain ⟨next, rfl, hnext⟩ := h
  exact .bind advance_behaves hnext

theorem report_behaves (code : Code) (message : String) (location : Location)
    (hcode : code.phase = .parse) : Behaves conduct (report code message location) :=
  behaves_of_done (report_run code message location) (fun s => .report s _ _ _ hcode) fun _ _ => rfl

theorem reportHere_behaves : Behaves conduct (reportHere message) :=
  behaves_of_done (reportHere_run message) (fun s => .reportHere s _) fun _ _ => rfl

theorem infoFrom_steady : Steady (infoFrom start) :=
  behaves_of_done (infoFrom_run start) (fun _ => .quiet (.refl _ _ _) rfl (Nat.le_succ _)
    rfl rfl) nofun

theorem infoAt_orderly : Orderly (infoAt location) :=
  behaves_of_done (infoAt_run location) (fun _ => .quiet (.refl _ _ _) rfl (Nat.le_succ _)
    rfl rfl) nofun

theorem node_steady : Steady (do pure (make (← infoFrom start))) :=
  .bind (infoFrom_steady start) fun _ => pure_behaves _

theorem node_orderly : Orderly (do pure (make (← infoFrom start))) :=
  (node_steady start make).orderly

theorem expect_behaves (kind : TokenKind) (message : String) :
    Behaves conduct (expect kind message) :=
  .bind (ask_behaves _) fun _ => behaves_ite (.bind advance_behaves fun _ => pure_behaves _)
    (.bind (reportHere_behaves _) fun _ => pure_behaves _)

theorem expectName_behaves : Behaves conduct (expectName what) :=
  .bind peek_behaves fun _ => behaves_ite (.bind advance_behaves fun _ => pure_behaves _)
    (.bind (reportHere_behaves _) fun _ => pure_behaves _)

theorem close_behaves : Behaves conduct (close what) :=
  .bind (ask_behaves _) fun _ => behaves_ite (.bind advance_behaves fun _ => pure_behaves _)
    (.bind (ask_behaves _) fun _ => behaves_ite
      (.bind peek_behaves fun _ => report_behaves _ _ _ rfl) (reportHere_behaves _))

theorem closeNode_orderly : Orderly (do
      close what
      pure (make (← infoFrom start))) :=
  .bind (close_behaves what) fun _ => node_orderly start make

theorem closeSpan_behaves (make : Span → α) : Behaves conduct (do
      close what
      pure (make (← spanFrom start))) :=
  .bind (close_behaves what) fun _ => .bind (spanFrom_behaves start) fun _ => pure_behaves _

section Combinators

variable {item : Parser α}

section

variable (hitem : Behaves conduct item)

include hitem

theorem repeatUpTo_behaves (bound : Nat) : Behaves conduct (repeatUpTo more item bound) := by
  induction bound with
  | zero => exact pure_behaves _
  | succ bound ih =>
      exact .bind (ask_behaves _) fun _ => behaves_ite
        (.bind hitem fun _ => .bind ih fun _ => pure_behaves _) (pure_behaves _)

theorem repeatWhile_behaves : Behaves conduct (repeatWhile more item) :=
  fun s => repeatUpTo_behaves hitem s.ahead.length s

theorem separatedUpTo_behaves (bound : Nat) : Behaves conduct (separatedUpTo item bound) := by
  induction bound with
  | zero => exact pure_behaves _
  | succ bound ih =>
      exact .bind (ask_behaves _) fun _ => behaves_ite (pure_behaves _)
        (.bind hitem fun _ => .bind (ask_behaves _) fun _ => behaves_ite
          (.bind advance_behaves fun _ => .bind ih fun _ => pure_behaves _) (pure_behaves _))

theorem separated_behaves : Behaves conduct (separated item) :=
  fun s => separatedUpTo_behaves hitem s.ahead.length s

theorem unlessClosed_behaves : Behaves conduct (unlessClosed item) :=
  .bind (ask_behaves _) fun _ => behaves_ite (.bind hitem fun _ => pure_behaves _) (pure_behaves _)

end

theorem parenthesized_behaves {items : Parser (List α)} (what : String)
    (hitems : Behaves conduct items) : Behaves conduct (parenthesized message what items) :=
  .bind (expect_behaves _ _) fun _ => behaves_ite
    (.bind hitems fun _ => .bind (close_behaves _) fun _ => pure_behaves _) (pure_behaves _)

end Combinators

/-! ## Numerals -/

theorem refuses_current (hkind : s.current.kind = .int ∨ s.current.kind = .uint)
    (h : read s.current.value = .error error) : Refuses s.ahead error := by
  have hne : s.current.kind ≠ .endOfInput := by rcases hkind with hkind | hkind <;> simp [hkind]
  obtain ⟨rest, hahead⟩ := State.ahead_of_current hne
  exact ⟨s.current, hahead ▸ mem_cons_self, hkind, h⟩

theorem literalValue_cases (token : Token) (s : State) :
    (∃ value, literalValue token s = .done value s) ∨
      ∃ error, literalValue token s = .failed error ∧ (token.kind = .int ∨ token.kind = .uint) ∧
          read token.value = .error error := by
  have hnumeral (make : Int → Literal) :
      (∃ value, (do pure (make (← integer token.value)) : Parser Literal) s = .done value s) ∨
        ∃ error, (do pure (make (← integer token.value)) : Parser Literal) s = .failed error ∧
          read token.value = .error error := by
    rw [integer]
    cases read token.value with
    | ok number => exact .inl ⟨_, rfl⟩
    | error error => exact .inr ⟨error, rfl, rfl⟩
  cases hkind : token.kind <;> simp only [literalValue, hkind]
  case uint => simpa using hnumeral .uint
  case int => simpa using hnumeral .int
  all_goals exact .inl ⟨_, rfl⟩

theorem literalValue_eq_done {token : Token} {value}
    (h : literalValue token s = .done value s') : s' = s := by
  obtain ⟨found, hrun⟩ | ⟨error, hrun, _⟩ := literalValue_cases token s
  · rw [hrun] at h
    cases h
    rfl
  · rw [hrun] at h
    cases h

/-! ## Types -/

section Types

variable {nested : Parser TypeSpec} (h : Behaves conduct nested)

include h

theorem parenTypeField_begins : Begins conduct (parenTypeField nested) :=
  ⟨_, rfl, fun _ => .bind (expectName_behaves _) fun _ => .bind h fun _ =>
    .bind (close_behaves _) fun _ => pure_behaves _⟩

theorem braceTypeField_behaves : Behaves conduct (braceTypeField nested) :=
  .bind (expectName_behaves _) fun _ => .bind (expect_behaves _ _) fun _ => .bind h fun _ =>
    pure_behaves _

theorem typeParam_behaves : Behaves conduct (typeParam nested) := by
  intro s
  show EndsOnward conduct s ((if s.current.kind = .int || s.current.kind = .uint then _ else _ :
    Parser TypeParam) s)
  split
  · next hkind =>
      -- The numeral that is read is the one that is ahead.
      show EndsOnward conduct s
        ((do pure (.size (← integer s.current.value)) : Parser TypeParam) s.advance)
      rw [integer]
      cases hread : read s.current.value with
      | ok number => exact ⟨.advance s, fun _ => State.advance_nextId s⟩
      | error error => exact refuses_current (by simpa using hkind) hread
  · exact h.bind (fun _ => pure_behaves _) s

theorem parenType_begins : Begins conduct (parenType nested) :=
  ⟨_, rfl, fun _ => .bind (expectName_behaves _) fun _ => behaves_ite
    (.bind (repeatWhile_behaves (parenTypeField_begins h).behaves) fun _ =>
      closeSpan_behaves _ _ _)
    (.bind (repeatWhile_behaves (typeParam_behaves h)) fun _ => closeSpan_behaves _ _ _)⟩

theorem braceType_begins : Begins conduct (braceType nested) :=
  ⟨_, rfl, fun _ => .bind (separated_behaves (braceTypeField_behaves h)) fun _ =>
    .bind (expect_behaves _ _) fun _ => .bind (spanFrom_behaves _) fun _ => pure_behaves _⟩

omit h in
theorem wordType_begins (token : Token) : Begins conduct (wordType token) :=
  ⟨_, rfl, fun _ => .bind (spanFrom_behaves _) fun _ => pure_behaves _⟩

omit h in
theorem badType_behaves : Behaves conduct badType :=
  .bind peek_behaves fun _ => .bind (reportHere_behaves _) fun _ => behaves_ite
    (.bind advance_behaves fun _ => .bind (spanFrom_behaves _) fun _ => pure_behaves _)
    (.bind (spanFrom_behaves _) fun _ => pure_behaves _)

end Types

theorem typeSpecWithin_behaves : Behaves conduct (typeSpecWithin levels) := by
  induction levels with
  | zero => exact badType_behaves
  | succ levels ih =>
      refine .bind peek_behaves fun token => ?_
      split
      · exact (wordType_begins _).behaves
      · exact (wordType_begins _).behaves
      · exact (braceType_begins ih).behaves
      · exact (parenType_begins ih).behaves
      · exact badType_behaves

theorem typeSpec_behaves : Behaves conduct typeSpec :=
  fun s => typeSpecWithin_behaves s.ahead.length s

/-! ## Literals and patterns -/

theorem literal_orderly : Orderly literal := by
  intro s
  rcases literalValue_cases s.current s.advance with ⟨value, hrun⟩ | ⟨error, hrun, hkind, hread⟩
  · have hliteral : literal s = (do pure (← infoFrom s.current.location, value)) s.advance := by
      show Parser.bind (literalValue s.current) _ s.advance = _
      rw [Parser.bind, hrun]
    rw [hliteral]
    exact .of_onward (.advance s) (fun h => by cases h) (node_orderly _ _ s.advance)
  · have hliteral : literal s = .failed error := by
      show Parser.bind (literalValue s.current) _ s.advance = _
      rw [Parser.bind, hrun]
    rw [hliteral]
    exact refuses_current hkind hread

theorem parenPattern_begins {nested} (h : Orderly nested)
    (head : Token) : Begins .orderly (parenPattern nested head) := by
  refine ⟨_, rfl, fun _ => .bind advance_behaves fun _ => ?_⟩
  unfold parenPatternAfter
  split
  · exact .bind (unlessClosed_behaves h) fun _ => closeNode_orderly _ _ _
  · exact closeNode_orderly _ _ _

theorem wordPattern_begins {nested} (h : Orderly nested)
    (token : Token) : Begins .orderly (wordPattern nested token) := by
  refine ⟨_, rfl, fun _ => ?_⟩
  unfold wordPatternAfter
  split
  · exact .bind (unlessClosed_behaves h) fun _ => node_orderly _ _
  · exact node_orderly _ _

theorem patternWithin_orderly : Orderly (patternWithin levels) := by
  induction levels with
  | zero => exact pure_behaves _
  | succ levels ih =>
      refine .bind peek_behaves fun token => ?_
      split
      · exact .bind (ask_behaves _) fun _ => .bind (ask_behaves _) fun _ => behaves_ite
          (.bind (parenPattern_begins ih _).behaves fun _ => pure_behaves _) (pure_behaves _)
      · exact .bind (wordPattern_begins ih _).behaves fun _ => pure_behaves _
      · exact .bind advance_behaves fun _ => node_orderly _ _
      · exact behaves_ite (.bind literal_orderly fun _ => node_orderly _ _) (pure_behaves _)

theorem pattern_orderly : Orderly pattern :=
  fun s => patternWithin_orderly s.ahead.length s

/-! ## Expressions -/

theorem missing_orderly : Orderly (missing location) :=
  .bind (infoAt_orderly _) fun _ => pure_behaves _

theorem dottedTail_passes :
    Passes finish last tokens (dottedTail last name tokens).1
      (dottedTail last name tokens).2.2 := by
  fun_induction dottedTail last name tokens with
  | case1 last name dot word rest hjoined ih => exact .cons _ (.cons _ ih)
  | case2 => exact .refl _ _ _
  | case3 => exact .refl _ _ _

theorem dottedTail_suffix : (dottedTail last name tokens).2.2 <:+ tokens :=
  (dottedTail_passes last last name tokens).suffix

theorem dottedName_run (s : State) :
    dottedName s = .done (dottedTail s.current s.current.value s.advance.ahead).2.1
      (s.advance.readTo (dottedTail s.current s.current.value s.advance.ahead).1
        (dottedTail s.current s.current.value s.advance.ahead).2.2 (dottedTail_suffix _ _ _)) := by
  show Step.done (dottedTail s.current s.current.value s.advance.unread).2.1
    (s.advance.goTo (dottedTail s.current s.current.value s.advance.unread).1
      (dottedTail s.current s.current.value s.advance.unread).2.2) = _
  rw [dottedTail_unread]
  exact congrArg _ (State.goTo_append _ _)

theorem dottedName_eq {s₁ : State} {first last : Token} {name : String} {rest}
    (hcurrent : s.current = first) (hadvance : s.advance = s₁)
    (h : dottedTail first first.value s₁.ahead = (last, name, rest)) (hrest : rest <:+ s₁.ahead) :
    dottedName s = .done name (s₁.readTo last rest hrest) := by
  subst hcurrent hadvance
  simp only [dottedName_run, h]

theorem dottedName_behaves : Behaves conduct dottedName := by
  refine behaves_of_done dottedName_run (fun s => ?_) fun _ => State.advance_nextId
  refine .quiet ?_ (State.advance_errors s) (Nat.le_of_eq (State.advance_nextId s).symm)
    (State.Onward.advance s).finish (State.Onward.advance s).beyond
  cases hahead : s.ahead with
  | nil =>
      -- The end of input is read as if it were a name.
      refine ⟨[], ?_, .inr ?_⟩ <;>
        simp [State.advance_of_nil hahead, hahead, dottedTail, State.current_headD]
  | cons token rest =>
      rw [State.advance_eq hahead, State.current_eq hahead]
      exact .cons _ (dottedTail_passes _ _ _ _)

theorem skipBrackets_passes : Passes finish previous tokens (skipBrackets previous level tokens).1
      (skipBrackets previous level tokens).2 := by
  induction tokens generalizing previous level with
  | nil => exact .refl _ _ _
  | cons token rest ih =>
      unfold skipBrackets
      split
      case h_3 | h_4 =>
        split
        · exact .cons _ (.refl _ _ _)
        · exact .cons _ (ih _ _)
      case h_5 => exact .refl _ _ _
      all_goals exact .cons _ (ih _ _)

theorem skipBrackets_suffix : (skipBrackets previous level tokens).2 <:+ tokens :=
  (skipBrackets_passes previous previous level tokens).suffix

theorem passOver_eq (s : State) :
    passOver s = s.readTo (skipBrackets s.previous 0 s.ahead).1
      (skipBrackets s.previous 0 s.ahead).2 (skipBrackets_suffix _ _ _) := by
  rw [passOver, State.unread, skipBrackets_append_end s.live s.finish_kind]
  exact State.goTo_append _ _

theorem passOver_of_skip {last : Token} {rest}
    (h : skipBrackets s.previous 0 s.ahead = (last, rest)) (hrest : rest <:+ s.ahead) :
    passOver s = s.readTo last rest hrest := by
  simp only [passOver_eq, h]

theorem passOver_onward (s : State) : s.Onward (passOver s) := by
  rw [passOver_eq]
  exact .skip (skipBrackets_passes _ _ _ _)

theorem passOver_behaves : Behaves conduct (change passOver) :=
  behaves_of_done (change_run passOver) passOver_onward fun _ _ => rfl

theorem skipNested_orderly : Orderly skipNested :=
  .bind peek_behaves fun _ => .bind (report_behaves _ _ _ rfl) fun _ =>
    .bind passOver_behaves fun _ => missing_orderly _

section Expressions

theorem orAbsent_orderly (found : Option Pattern) : Orderly (orAbsent start found) := by
  cases found with
  | some found => exact pure_behaves _
  | none => exact .bind (infoAt_orderly _) fun _ => pure_behaves _

variable {nested : Parser Expr} (h : Orderly nested)

include h

theorem body_orderly : Orderly (body nested) :=
  repeatWhile_behaves h

theorem letBinding_begins : Begins .orderly (letBinding nested) :=
  ⟨_, rfl, fun _ => .bind (expectName_behaves _) fun _ => .bind h fun _ => closeNode_orderly _ _ _⟩

theorem matchArm_orderly : Orderly (matchArm nested) :=
  .bind peek_behaves fun _ => .bind
    (.bind (ask_behaves _) fun _ => behaves_ite (pure_behaves _) pattern_orderly) fun found =>
    .bind (orAbsent_orderly _ found) fun _ => .bind (unlessClosed_behaves h) fun _ =>
      node_orderly _ _

theorem parenField_orderly : Orderly (parenField nested) :=
  .bind peek_behaves fun _ => .bind (expect_behaves _ _) fun _ => behaves_ite
    (.bind (expectName_behaves _) fun _ => .bind h fun _ => closeNode_orderly _ _ _)
    (.bind advance_behaves fun _ => pure_behaves _)

theorem braceField_orderly : Orderly (braceField nested) :=
  .bind peek_behaves fun _ => .bind (expectName_behaves _) fun _ =>
    .bind (expect_behaves _ _) fun _ => .bind h fun _ => node_orderly _ _

theorem braceTuple_begins : Begins .orderly (braceTuple nested) :=
  ⟨_, rfl, fun _ => .bind (separated_behaves (braceField_orderly h)) fun _ =>
    .bind (expect_behaves _ _) fun _ => node_orderly _ _⟩

theorem callee_orderly : Orderly (callee nested) :=
  .bind peek_behaves fun _ => behaves_ite dottedName_behaves
    (.bind (reportHere_behaves _) fun _ => .bind (unlessClosed_behaves h) fun _ => pure_behaves _)

theorem callExpr_orderly (start : Location) : Orderly (callExpr nested start) :=
  .bind (callee_orderly h) fun _ => .bind (body_orderly h) fun _ => closeNode_orderly _ _ _

theorem specialForm?_orderly {form : Parser Expr → Location → Parser Expr}
    (hform : specialForm? keyword = some form) (start : Location) :
    Orderly (form nested start) := by
  unfold specialForm? at hform
  split at hform <;> cases hform
  · exact .bind
      (parenthesized_behaves _ _ (repeatWhile_behaves (letBinding_begins h).behaves)) fun _ =>
      .bind (body_orderly h) fun _ => closeNode_orderly _ _ _
  · exact .bind (body_orderly h) fun _ => closeNode_orderly _ _ _
  · exact .bind h fun _ => .bind h fun _ => .bind (unlessClosed_behaves h) fun _ =>
      closeNode_orderly _ _ _
  · exact .bind h fun _ => .bind (repeatWhile_behaves (matchArm_orderly h)) fun _ =>
      closeNode_orderly _ _ _
  · exact .bind (body_orderly h) fun _ => closeNode_orderly _ _ _
  · exact .bind (repeatWhile_behaves (parenField_orderly h)) fun _ => closeNode_orderly _ _ _

theorem parenExpr_orderly : Orderly (parenExpr nested) := by
  intro s
  have hadvance := State.Onward.advance s
  have hlater {parser : Parser Expr} (horderly : Orderly parser) :
      EndsOnward .orderly s (parser s.advance) :=
    .of_onward hadvance nofun (horderly s.advance)
  show EndsOnward .orderly s (parenExprAfter nested s s.current.location
    s.advance.current s.advance)
  unfold parenExprAfter
  cases s.advance.current.kind with
  | rightParen =>
      exact hlater (.bind advance_behaves fun _ => .bind (report_behaves _ _ _ rfl) fun _ =>
        missing_orderly _)
  | keyword =>
      split
      · -- The definition is reported, and the parse goes back to its parenthesis.
        refine ⟨rfl, ⟨.refl _ _ _, rfl, rfl, ?_, ?_, hadvance.nextId⟩, ?_⟩
        · simp
        · exact (hadvance.trans (.report s.advance _ _ _ rfl)).phase
        · simp
      · split
        · next hform => exact hlater (.bind advance_behaves fun _ => specialForm?_orderly h hform _)
        · exact hlater (callExpr_orderly h _)
  | _ => exact hlater (callExpr_orderly h _)

theorem compoundExpr_orderly : Orderly (compoundExpr nested) :=
  .bind (ask_behaves _) fun _ => behaves_ite (parenExpr_orderly h)
    (braceTuple_begins h).behaves

end Expressions

theorem literalExpr_orderly : Orderly literalExpr :=
  .bind peek_behaves fun _ => .bind (ask_behaves _) fun _ => behaves_ite
    (.bind advance_behaves fun _ => .bind dottedName_behaves fun _ => node_orderly _ _)
    (behaves_ite (.bind literal_orderly fun _ => pure_behaves _)
      (.bind advance_behaves fun _ => .bind (report_behaves _ _ _ rfl) fun _ => missing_orderly _))

theorem nameExpr_orderly : Orderly nameExpr :=
  .bind peek_behaves fun _ => .bind dottedName_behaves fun _ => node_orderly _ _

theorem exprWith_orderly {compound} (h : Orderly compound) : Orderly (exprWith compound) := by
  refine .bind peek_behaves fun _ => ?_
  split
  · exact h
  · exact h
  · exact nameExpr_orderly
  · exact nameExpr_orderly
  · exact .bind (reportHere_behaves _) fun _ => missing_orderly _
  · exact .bind (reportHere_behaves _) fun _ => missing_orderly _
  · exact literalExpr_orderly

theorem exprWithin_orderly : Orderly (exprWithin levels) := by
  induction levels with
  | zero => exact exprWith_orderly skipNested_orderly
  | succ levels ih => exact exprWith_orderly (compoundExpr_orderly ih)

theorem expr_orderly : Orderly expr :=
  exprWithin_orderly maxNesting

/-! ## Forms

Only an expression is interrupted, and each form catches the interruptions of its expressions.
-/

theorem unlessInterrupted_steady {parser : Parser α} (h : Orderly parser) :
    Steady (unlessInterrupted parser) := by
  intro s
  unfold unlessInterrupted
  cases hstep : parser s with
  | done value s' => exact ⟨h.done hstep, nofun⟩
  | interrupted s' => exact ⟨(h.interrupted hstep).1, nofun⟩
  | failed error => exact h.failed hstep

theorem parameter_begins : Begins conduct parameter :=
  ⟨_, rfl, fun _ => .bind (expectName_behaves _) fun _ => .bind typeSpec_behaves fun _ =>
    closeSpan_behaves _ _ _⟩

theorem traitFunction_begins : Begins conduct traitFunction :=
  ⟨_, rfl, fun _ => .bind (expectName_behaves _) fun _ =>
    .bind (parenthesized_behaves _ _ (repeatWhile_behaves typeSpec_behaves)) fun _ =>
      .bind typeSpec_behaves fun _ => closeSpan_behaves _ _ _⟩

theorem map_orderly : Orderly (map start) :=
  .bind (expectName_behaves _) fun _ => .bind typeSpec_behaves fun _ =>
    .bind typeSpec_behaves fun _ => closeNode_orderly _ _ _

theorem nonFungible_orderly : Orderly (nonFungible start) :=
  .bind (expectName_behaves _) fun _ => .bind typeSpec_behaves fun _ => closeNode_orderly _ _ _

theorem trait_orderly : Orderly (trait start) :=
  .bind (expectName_behaves _) fun _ =>
    .bind (parenthesized_behaves _ _ (repeatWhile_behaves traitFunction_begins.behaves)) fun _ =>
      closeNode_orderly _ _ _

theorem skipToForm_passes (finish : Token) (line : Int) (previous : Token) (tokens : List Token) :
    Passes finish previous tokens (skipToForm line previous tokens).1
      (skipToForm line previous tokens).2 := by
  induction tokens generalizing previous with
  | nil => exact .refl _ _ _
  | cons token rest ih =>
      unfold skipToForm
      split
      · exact .refl _ _ _
      · exact .cons _ (ih token)

theorem resume_of_nil (h : s.ahead = []) : resume line s = s := by
  rw [resume, State.atEnd_iff.mpr h, Bool.or_true]
  rfl

theorem passes_resume {token rest} (h : s.ahead = token :: rest) :
    Passes s.finish s.previous s.ahead (skipToForm line token rest).1
      (skipToForm line token rest).2 :=
  h ▸ .cons _ (skipToForm_passes _ _ _ _)

theorem resume_of_cons {token rest} (h : s.ahead = token :: rest) :
    resume line s = if startsDefinition (token :: rest) then s
      else s.readTo (skipToForm line token rest).1 (skipToForm line token rest).2
        (passes_resume line h).suffix := by
  have hmore : s.atEnd = false := Bool.eq_false_iff.mpr (by simp [State.atEnd_iff, h])
  have hunread : s.unread = token :: (rest ++ s.finish :: s.beyond) := by
    rw [State.unread, h]
    rfl
  have hlive (other) (hother : other ∈ rest) : other.kind ≠ .endOfInput :=
    s.live other (h ▸ mem_cons_of_mem _ hother)
  rw [resume, hmore, Bool.or_false, hunread, startsDefinition_append_end s.finish_kind,
    State.current_eq h, drop_one, tail_cons, skipToForm_append_end hlive s.finish_kind]
  split
  · rfl
  · exact State.goTo_append _ _

theorem resume_onward (s : State) : s.Onward (resume line s) := by
  cases hahead : s.ahead with
  | nil =>
      rw [resume_of_nil line hahead]
      exact .refl s
  | cons token rest =>
      rw [resume_of_cons line hahead]
      split
      · exact .refl s
      · exact .skip (passes_resume line hahead)

theorem resume_nextId (s : State) : (resume line s).nextId = s.nextId := by
  unfold resume
  split <;> rfl

theorem resumeIf_behaves (malformed : Bool) (line : Int) :
    Behaves conduct (resumeIf malformed line) :=
  behaves_ite (behaves_of_done (change_run _) (resume_onward line) fun _ => resume_nextId line)
    (pure_behaves _)

section Read

variable {read : Parser Expr} {head : Token} {rest : Location → Parser FormResult}
  {found : Option Form}

theorem formAt?_eq_some : formAt? read head = some rest ↔
      head.kind = .keyword ∧ formAfter? read head.value = some rest := by
  unfold formAt?
  split <;> simp [*]

/-- A run of the parser for a form that goes on behind it, step by step. -/
theorem formThenResume_eq_done : formThenResume read s = .done found s' ↔
      ∃ result s₁, form read s = .done result s₁ ∧ result.form = found ∧
        resumeIf (!result.cut && s.errors.length < s₁.errors.length) s.current.location.line s₁ =
          .done () s' := by
  simp only [formThenResume, bind_eq_done, peek_run, ask_run, pure_run, Step.done.injEq]
  constructor
  · rintro ⟨_, _, ⟨rfl, rfl⟩, _, _, ⟨rfl, rfl⟩, result, s₁, hform, _, _, ⟨rfl, rfl⟩, _, s₂,
      hresume, rfl, rfl⟩
    exact ⟨result, s₁, hform, rfl, hresume⟩
  · rintro ⟨result, s₁, hform, rfl, hresume⟩
    exact ⟨_, _, ⟨rfl, rfl⟩, _, _, ⟨rfl, rfl⟩, result, s₁, hform, _, _, ⟨rfl, rfl⟩, _, s', hresume,
      rfl, rfl⟩

variable (h : Orderly read)

include h

theorem functionBodyUpTo_steady (bound : Nat) : Steady (functionBodyUpTo read bound) := by
  induction bound with
  | zero => exact pure_behaves _
  | succ bound ih =>
      refine .bind (ask_behaves _) fun _ => behaves_ite
        (.bind (unlessInterrupted_steady h) fun found => ?_) (pure_behaves _)
      cases found with
      | some first => exact .bind ih fun _ => pure_behaves _
      | none => exact pure_behaves _

theorem functionBody_steady : Steady (functionBody read) :=
  fun s => functionBodyUpTo_steady h s.ahead.length s

theorem function_steady (visibility : Visibility) (start : Location) :
    Steady (function read visibility start) :=
  .bind (expect_behaves _ _) fun _ => .bind (expectName_behaves _) fun _ =>
    .bind (repeatWhile_behaves parameter_begins.behaves) fun _ => .bind (close_behaves _) fun _ =>
      .bind (functionBody_steady h) fun _ =>
        .bind (behaves_ite (pure_behaves _) (close_behaves _)) fun _ => node_steady _ _

theorem constant_orderly (start : Location) : Orderly (constant read start) :=
  .bind (expectName_behaves _) fun _ => .bind h fun _ => closeNode_orderly _ _ _

theorem dataVar_orderly (start : Location) : Orderly (dataVar read start) :=
  .bind (expectName_behaves _) fun _ => .bind typeSpec_behaves fun _ => .bind h fun _ =>
    closeNode_orderly _ _ _

theorem fungible_orderly (start : Location) : Orderly (fungible read start) :=
  .bind (expectName_behaves _) fun _ => .bind (unlessClosed_behaves h) fun _ =>
    closeNode_orderly _ _ _

theorem useTrait_orderly (start : Location) : Orderly (useTrait read start) :=
  .bind (expectName_behaves _) fun _ => .bind h fun _ => closeNode_orderly _ _ _

theorem implTrait_orderly (start : Location) : Orderly (implTrait read start) :=
  .bind h fun _ => closeNode_orderly _ _ _

omit h in
theorem whole_steady {parser} (hparser : Orderly parser) : Steady (whole parser) :=
  .bind (unlessInterrupted_steady hparser) fun _ => pure_behaves _

theorem formAfter?_steady {rest}
    (hrest : formAfter? read keyword = some rest) (start : Location) : Steady (rest start) := by
  unfold formAfter? at hrest
  split at hrest <;> cases hrest
  · exact whole_steady (constant_orderly h start)
  · exact function_steady h _ start
  · exact function_steady h _ start
  · exact function_steady h _ start
  · exact whole_steady (map_orderly start)
  · exact whole_steady (dataVar_orderly h start)
  · exact whole_steady (nonFungible_orderly start)
  · exact whole_steady (fungible_orderly h start)
  · exact whole_steady (trait_orderly start)
  · exact whole_steady (useTrait_orderly h start)
  · exact whole_steady (implTrait_orderly h start)

theorem form_steady : Steady (form read) := by
  refine .bind advance_behaves fun first => behaves_ite
    (.bind (report_behaves _ _ _ rfl) fun _ => pure_behaves _) (.bind peek_behaves fun head => ?_)
  split
  · next hrest =>
      exact .bind advance_behaves fun _ =>
        formAfter?_steady h (formAt?_eq_some.mp hrest).2 _
  · exact .bind (report_behaves _ _ _ rfl) fun _ => pure_behaves _

theorem formThenResume_steady : Steady (formThenResume read) :=
  .bind peek_behaves fun _ => .bind (ask_behaves _) fun _ => .bind (form_steady h) fun _ =>
    .bind (ask_behaves _) fun _ => .bind (resumeIf_behaves _ _) fun _ => pure_behaves _

theorem contract_steady : Steady (contract read) :=
  .bind peek_behaves fun _ => .bind (repeatWhile_behaves (formThenResume_steady h)) fun _ =>
    node_steady _ _

end Read

theorem functionBody_orderly : Orderly (functionBody expr) :=
  (functionBody_steady expr_orderly).orderly

theorem form_orderly : Orderly (form expr) :=
  (form_steady expr_orderly).orderly

theorem formThenResume_orderly : Orderly (formThenResume expr) :=
  (formThenResume_steady expr_orderly).orderly

theorem contract_orderly : Orderly (contract expr) :=
  (contract_steady expr_orderly).orderly

end Parser

/-! ## Parses -/

theorem parseTokensWithin_eq_ok {levels : Nat} {tokens} :
    parseTokensWithin levels tokens = .ok result ↔
      ∃ state, Parser.contract (Parser.exprWithin levels) (.ofTokens tokens) =
        .done result.contract state ∧ state.errors = result.errors := by
  obtain ⟨contract, errors⟩ := result
  unfold parseTokensWithin
  cases hstep : Parser.contract (Parser.exprWithin levels) (.ofTokens tokens) with
  | done found state => simp [and_assoc]
  | interrupted state =>
      exact absurd hstep
        (Parser.contract_steady (Parser.exprWithin_orderly levels)).not_interrupted
  | failed error => simp

theorem parseTokens_eq_ok {tokens} : parseTokens tokens = .ok result ↔
      ∃ state, Parser.contract Parser.expr (.ofTokens tokens) = .done result.contract state ∧
        state.errors = result.errors :=
  parseTokensWithin_eq_ok

/-- A parse fails only because of a numeral that denotes no integer. -/
theorem refuses_of_parseTokens {tokens} (h : parseTokens tokens = .error error) :
    Refuses (State.ofTokens tokens).ahead error := by
  unfold parseTokens parseTokensWithin at h
  cases hstep : Parser.contract (Parser.exprWithin Parser.maxNesting) (.ofTokens tokens) with
  | failed reason =>
      simp only [hstep, Except.error.injEq] at h
      exact h ▸ Parser.contract_orderly.failed hstep
  | _ => simp [hstep] at h

end ContractAudit
