import ContractAudit.Proofs.Parse.Phrase
import ContractAudit.Proofs.Text.Numeral

/-!
# How far a parse reads

A parse reads the tokens that mean something up to the first end of input, and no further. Every
round of the loop over forms starts at a position of the token list and ends at a later one, also
a round that a definition cuts short and that goes back to it. The last round ends at the first end
of input, and whatever follows that is not looked at. The other loops of the parser end because
their conditions fail as well, never because of their bounds. Only a numeral that cannot be read
stops a parse before.
-/

namespace ContractAudit

open Parse ContractAudit.Parser List Text.Numeral TokenKind

variable {front : List Token} {numeral : String} {last : Token} {error : Text.Numeral.Error}
  (tokens : List Token)

/-! ## Positions -/

/-- The position of the first end of input. -/
def firstEnd (stream : List Token) : Nat :=
  stream.findIdx fun token => token.kind = .endOfInput

/-- A state stands at a position of a token list: what is unread are the tokens from there on. -/
def Parse.State.At (stream : List Token) (position : Nat) (s : State) : Prop :=
  stream.drop position = s.unread

namespace Parse.State.At

variable {stream : List Token} {position : Nat} {s s' : State}

theorem onward (h : s.At stream position) (honward : s.Onward s') :
    s'.At stream (position + (s.ahead.length - s'.ahead.length)) := by
  obtain ⟨used, hused⟩ := honward.ahead
  have hlength : s.ahead.length - s'.ahead.length = used.length := by
    rw [← hused, length_append]
    omega
  rw [At, hlength, ← drop_drop, h, unread, unread, ← hused, honward.finish, honward.beyond,
    append_assoc, drop_left]

theorem firstEnd_eq (h : s.At stream 0) : firstEnd stream = s.ahead.length := by
  have hnone : ¬s.ahead.findIdx (fun token => token.kind = .endOfInput) < s.ahead.length := by
    rw [findIdx_lt_length]
    rintro ⟨token, htoken, hkind⟩
    exact s.live token htoken (of_decide_eq_true hkind)
  have hfinish : decide (s.finish.kind = .endOfInput) = true := decide_eq_true s.finish_kind
  rw [firstEnd, ← stream.drop_zero, h, unread, findIdx_append, if_neg hnone, findIdx_cons, hfinish]
  exact Nat.zero_add _

end Parse.State.At

theorem ofTokens_at : (State.ofTokens tokens).At (meaningful tokens) 0 := by
  obtain ⟨front, last, back, hsplit, hlast, hfront⟩ := meaningful_split tokens
  rw [State.At, ofTokens_eq hsplit hlast hfront, hsplit]
  rfl

/-! ## Rounds -/

/-- The rounds of the loop over forms from one state to another, with what they find. Each starts
where the one before it has ended, further on than that one started. -/
inductive Rounds (stream : List Token) : Nat → State → List (Option Form) → Nat → State → Prop where
  | stop {position : Nat} {s : State} (hplace : s.At stream position) (hend : s.atEnd = true) :
      Rounds stream position s [] position s
  | next {position position₁ last : Nat} {s s₁ s' : State} {found : Option Form}
      {rest : List (Option Form)} (hplace : s.At stream position) (hmore : s.atEnd = false)
      (hround : formThenResume expr s = .done found s₁) (hfurther : position < position₁)
      (hrest : Rounds stream position₁ s₁ rest last s') :
      Rounds stream position s (found :: rest) last s'

/-- Every numeral denotes an integer. -/
def NumeralsRead (tokens : List Token) : Prop :=
  ∀ token ∈ tokens, token.kind = .int ∨ token.kind = .uint →
    (read token.value).isOk = true

instance (tokens : List Token) : Decidable (NumeralsRead tokens) :=
  inferInstanceAs (Decidable (∀ token ∈ tokens, _ → _))

theorem NumeralsRead.not_refuses {tokens} (h : NumeralsRead tokens) : ¬Refuses tokens error := by
  rintro ⟨token, htoken, hkind, hread⟩
  have hok := h token htoken hkind
  rw [hread] at hok
  cases hok

section

variable {stream : List Token} {position : Nat} {s : State} (hplace : s.At stream position)
  (hreadable : NumeralsRead s.ahead)

include hplace hreadable

theorem formThenResume_further (hmore : s.atEnd = false) :
    ∃ found s' position', formThenResume expr s = .done found s' ∧ position < position' ∧
      position' + s'.ahead.length = position + s.ahead.length ∧ s'.At stream position' := by
  cases hrun : formThenResume expr s with
  | done found s' =>
      have hahead : s.ahead ≠ [] := by simpa [State.atEnd_eq_isEmpty] using hmore
      have hshorter := length_formThenResume expr_orderly hrun hahead
      exact ⟨found, s', _, rfl, by omega, by omega,
        hplace.onward (formThenResume_orderly.done hrun)⟩
  | interrupted s' => exact absurd hrun (formThenResume_steady expr_orderly).not_interrupted
  | failed error => exact absurd (formThenResume_orderly.failed hrun) hreadable.not_refuses

/-- The loop over forms goes from any position to the end of what is unread. -/
theorem forms_rounds : ∃ found s', forms expr s = .done found s' ∧
      Rounds stream position s found (position + s.ahead.length) s' := by
  induction hlength : s.ahead.length using Nat.strongRecOn generalizing s position with
  | ind length ih =>
      by_cases hahead : s.ahead = []
      · have hzero : length = 0 := by rw [← hlength, hahead, length_nil]
        rw [hzero]
        exact ⟨[], s, forms_nil hahead, .stop hplace (State.atEnd_iff.mpr hahead)⟩
      · have hmore : s.atEnd = false := by simpa [State.atEnd_eq_isEmpty] using hahead
        obtain ⟨first, s₁, position₁, hround, hfurther, hsum, hplace₁⟩ :=
          formThenResume_further hplace hreadable hmore
        have honward := formThenResume_orderly.done hround
        have hreadable₁ : NumeralsRead s₁.ahead := fun token htoken =>
          hreadable token (honward.ahead.subset htoken)
        obtain ⟨rest, s', hrest, hrounds⟩ :=
          ih s₁.ahead.length (by omega) hplace₁ hreadable₁ rfl
        refine ⟨first :: rest, s', ?_, .next hplace hmore hround hfurther ?_⟩
        · rw [forms_cons expr_orderly hahead]
          exact bind_eq_done.mpr ⟨first, s₁, hround, bind_eq_done.mpr ⟨rest, s', hrest, rfl⟩⟩
        · rwa [← hlength, ← hsum]

end

theorem Rounds.at_last {stream} {position last : Nat} {s s' : State}
    {found} (h : Rounds stream position s found last s') :
    s'.At stream last ∧ s'.atEnd = true := by
  induction h with
  | stop hplace hend => exact ⟨hplace, hend⟩
  | next _ _ _ _ _ ih => exact ih

/-! ## Tokens behind the end of input -/

section

variable (hlast : last.kind = .endOfInput) (back : List Token)

include hlast

theorem meaningful_append_end : ∃ more, meaningful (front ++ last :: back) =
      meaningful (front ++ [last]) ++ more := by
  have hkept (back : List Token) : (front ++ last :: back).filter (fun token => !token.kind.isGap) =
      front.filter (fun token => !token.kind.isGap) ++ last ::
        back.filter fun token => !token.kind.isGap := by
    simp [hlast, isGap]
  have hfirst : meaningful (front ++ [last]) =
      front.filter (fun token => !token.kind.isGap) ++ [last] := by
    simp [meaningful, hkept, hlast]
  rw [hfirst, meaningful, hkept]
  split
  · exact ⟨back.filter fun token => !token.kind.isGap, by rw [append_assoc, singleton_append]⟩
  · exact ⟨(back.filter fun token => !token.kind.isGap) ++ [endAfter _], by
      rw [append_assoc, append_assoc, cons_append, singleton_append]⟩

/-- The parser sees no token behind the first end of input, so others there make no difference. -/
theorem parseTokens_append_end (back' : List Token) :
    parseTokens (front ++ last :: back') = parseTokens (front ++ last :: back) := by
  obtain ⟨ahead, finish, more, hsplit, hfinish, hlive⟩ := meaningful_split (front ++ [last])
  -- Both lists are the same up to the first end of input.
  have hstate (back : List Token) : ∃ beyond, State.ofTokens (front ++ last :: back) =
      (State.ofTokens (front ++ [last])).move (.later 0) [] beyond := by
    obtain ⟨others, hothers⟩ : ∃ others, meaningful (front ++ last :: back) =
        meaningful (front ++ [last]) ++ others := meaningful_append_end hlast back
    rw [hsplit, append_assoc, cons_append] at hothers
    refine ⟨more ++ others, ?_⟩
    rw [ofTokens_eq hothers hfinish hlive, ofTokens_eq hsplit hfinish hlive]
    simp [State.move, Token.move_later, map_move_later]
  obtain ⟨beyond, hbeyond⟩ := hstate back
  obtain ⟨beyond', hbeyond'⟩ := hstate back'
  rw [parseTokens, parseTokensWithin, parseTokensWithin, hbeyond, hbeyond', ← expr,
    contract_moves, contract_moves]
  cases contract expr (State.ofTokens (front ++ [last])) <;> rfl

end

/-! ## The loops of the parser -/

/-- Each loop of the parser runs until its condition fails, and types and patterns nest to any
depth. -/
structure LoopsRunOut : Prop where
  forms : RunsOut (fun state => !state.atEnd) (formThenResume expr) (forms expr)
  functionBody : functionBody expr = bodyRound (functionBody expr)
  parameters : RunsOut (·.sees .leftParen) parameter (repeatWhile (·.sees .leftParen) parameter)
  traitFunctions :
    RunsOut (·.sees .leftParen) traitFunction (repeatWhile (·.sees .leftParen) traitFunction)
  argumentTypes : RunsOut State.inBody typeSpec (repeatWhile State.inBody typeSpec)
  types : typeSpec = typeSpecWith typeSpec
  typeParams : RunsOut State.inBody (typeParam typeSpec)
    (repeatWhile State.inBody (typeParam typeSpec))
  parenTypeFields : RunsOut (·.sees .leftParen) (parenTypeField typeSpec)
    (repeatWhile (·.sees .leftParen) (parenTypeField typeSpec))
  braceTypeFields : separated (braceTypeField typeSpec) =
    commaRound (braceTypeField typeSpec) (separated (braceTypeField typeSpec))
  patterns : pattern = patternWith pattern
  bodies : ∀ levels, RunsOut State.inBody (exprWithin levels) (body (exprWithin levels))
  letBindings : ∀ levels, RunsOut (·.sees .leftParen) (letBinding (exprWithin levels))
    (repeatWhile (·.sees .leftParen) (letBinding (exprWithin levels)))
  arms : ∀ levels, RunsOut State.inBody (matchArm (exprWithin levels))
    (repeatWhile State.inBody (matchArm (exprWithin levels)))
  parenFields : ∀ levels, RunsOut State.inBody (parenField (exprWithin levels))
    (repeatWhile State.inBody (parenField (exprWithin levels)))
  braceFields : ∀ levels, separated (braceField (exprWithin levels)) =
    commaRound (braceField (exprWithin levels)) (separated (braceField (exprWithin levels)))

theorem loopsRunOut : LoopsRunOut where
  forms := repeatWhile_runsOut (fun _ => more_iff.mp) fun _ _ _ hmore hrun =>
    length_formThenResume expr_orderly hrun (more_iff.mp hmore)
  functionBody := functionBody_unfolds
  parameters := parameter_begins.runsOut
  traitFunctions := traitFunction_begins.runsOut
  argumentTypes := repeatInBody_runsOut typeSpec_advances
  types := typeSpec_unfolds
  typeParams := repeatInBody_runsOut (typeParam_advances typeSpec_advances)
  parenTypeFields := (parenTypeField_begins typeSpec_behaves).runsOut
  braceTypeFields := separated_unfolds (braceTypeField_behaves typeSpec_behaves).goesOnward
  patterns := patternWithin_levels.2
  bodies := fun levels => repeatInBody_runsOut (exprWithin_advances levels)
  letBindings := fun levels => (letBinding_begins (exprWithin_orderly levels)).runsOut
  arms := fun levels => repeatInBody_runsOut
    (matchArm_advances (exprWithin_orderly levels) (exprWithin_advances levels))
  parenFields := fun levels => repeatInBody_runsOut
    ((parenField_advances (exprWithin_orderly levels)).mono fun _ => State.ne_nil_of_inBody)
  braceFields := fun levels => separated_unfolds
    (braceField_orderly (exprWithin_orderly levels)).goesOnward

/-! ## Parses -/

/-- Each loop of the parser ends by its own condition. If the numerals before the first end of input
can be read, the rounds of the loop over forms go from the first token to the first end of input,
and the forms that they find are the contract. No token behind an end of input matters. -/
theorem parseTokens_reads_to_firstEnd (tokens : List Token)
    (hread : NumeralsRead (tokens.takeWhile fun token => token.kind ≠ .endOfInput)) :
    LoopsRunOut ∧
    (∃ found last result, forms expr (.ofTokens tokens) = .done found last ∧
      Rounds (meaningful tokens) 0 (.ofTokens tokens) found (firstEnd (meaningful tokens)) last ∧
      last.At (meaningful tokens) (firstEnd (meaningful tokens)) ∧ last.atEnd = true ∧
      parseTokens tokens = .ok result ∧ result.contract.body = found.filterMap id ∧
      result.errors = last.errors) ∧
    ∀ front stop back, tokens = front ++ stop :: back → stop.kind = .endOfInput →
      ∀ back', parseTokens (front ++ stop :: back') = parseTokens tokens := by
  have hplace := ofTokens_at tokens
  have hahead : NumeralsRead (State.ofTokens tokens).ahead := by
    intro token htoken
    rw [ahead_ofTokens] at htoken
    exact hread token (List.mem_filter.mp htoken).1
  obtain ⟨found, last, hforms, hrounds⟩ := forms_rounds hplace hahead
  rw [Nat.zero_add, ← hplace.firstEnd_eq] at hrounds
  obtain ⟨hlast, hend⟩ := hrounds.at_last
  refine ⟨loopsRunOut, ⟨found, last, ⟨_, last.errors⟩, hforms, hrounds, hlast, hend,
    parseTokens_eq_ok.mpr ⟨_, contract_of_forms hforms, rfl⟩, rfl, rfl⟩, ?_⟩
  intro front stop back htokens hstop back'
  rw [htokens]
  exact parseTokens_append_end hstop back back'

def tokenAt (kind : TokenKind) (value : String) : Token :=
  ⟨kind, value, value, Location.start⟩

/-- A function that a definition cuts short, with a blank inside and an end of input before more
tokens, the last of which is no end of input. -/
def cutShort : List Token :=
  [tokenAt .leftParen "(", tokenAt .keyword "define-public", tokenAt .leftParen "(",
   tokenAt .identifier "f", tokenAt .rightParen ")", tokenAt .whitespace " ",
   tokenAt .leftParen "(", tokenAt .keyword "ok", tokenAt .uint "1",
   tokenAt .leftParen "(", tokenAt .keyword "define-constant", tokenAt .identifier "x",
   tokenAt .int "-7", tokenAt .rightParen ")", tokenAt .endOfInput "", tokenAt .int "?",
   tokenAt .rightParen ")"]

theorem parseTokens_reads_cutShort :
    NumeralsRead (cutShort.takeWhile fun token => token.kind ≠ .endOfInput) ∧
      firstEnd (meaningful cutShort) = 13 ∧
      (∃ found last, Rounds (meaningful cutShort) 0 (.ofTokens cutShort) found 13 last ∧
        last.At (meaningful cutShort) 13 ∧ (parseTokens cutShort).isOk = true) ∧
      parseTokens (cutShort.take 15) = parseTokens cutShort := by
  have hread : NumeralsRead (cutShort.takeWhile fun token => token.kind ≠ .endOfInput) := by decide
  have hfirst : firstEnd (meaningful cutShort) = 13 := by decide
  obtain ⟨_, ⟨found, last, result, _, hrounds, hlast, _, hparse, _⟩, hback⟩ :=
    parseTokens_reads_to_firstEnd cutShort hread
  rw [hfirst] at hrounds hlast
  exact ⟨hread, hfirst, ⟨found, last, hrounds, hlast, by rw [hparse]; rfl⟩,
    hback (cutShort.take 14) (tokenAt .endOfInput "") _ rfl rfl []⟩

/-! ## A numeral that is too long -/

theorem bind_failed {α β : Type} {first} {next : α → Parser β} {s : State}
    (h : first s = .failed error) : (first >>= next) s = .failed error := by
  show Parser.bind first next s = _
  rw [Parser.bind, h]

theorem expr_failed {s : State} {token : Token} {rest : List Token}
    (hahead : s.ahead = token :: rest) (hkind : token.kind = .int)
    (h : read token.value = .error error) : expr s = .failed error := by
  have hcurrent := State.current_eq hahead
  have hliteral : literal s = .failed error := by
    rw [literal, advance_bind_run, hcurrent]
    refine bind_failed ?_
    rw [literalValue, hkind]
    refine bind_failed ?_
    rw [integer, h]
    rfl
  show exprWith _ s = _
  rw [exprWith, peek_bind_run, hcurrent, hkind]
  show literalExpr s = _
  rw [literalExpr, peek_bind_run, ask_bind_run, hcurrent]
  simp [State.sees, hcurrent, hkind, isLiteral, bind_failed hliteral]

def constantTokens (numeral : String) : List Token :=
  [tokenAt .leftParen "(", tokenAt .keyword "define-constant", tokenAt .identifier "x",
   tokenAt .int numeral, tokenAt .rightParen ")", tokenAt .endOfInput ""]

theorem parseTokens_constantTokens (h : read numeral = .error error) :
    parseTokens (constantTokens numeral) = .error error := by
  -- The form is opened, its keyword and the name are read, and the value is the numeral.
  have hahead : (State.ofTokens (constantTokens numeral)).ahead =
      (constantTokens numeral).take 5 := by
    rw [ahead_ofTokens]
    rfl
  generalize hstart : State.ofTokens (constantTokens numeral) = start at hahead
  have hahead₁ : start.advance.ahead = ((constantTokens numeral).take 5).drop 1 :=
    State.ahead_advance hahead
  have hahead₂ : start.advance.advance.ahead = ((constantTokens numeral).take 5).drop 2 :=
    State.ahead_advance hahead₁
  have hahead₃ : start.advance.advance.advance.ahead =
      ((constantTokens numeral).take 5).drop 3 :=
    State.ahead_advance hahead₂
  have hconstant (location : Location) :
      constant expr location start.advance.advance = .failed error := by
    have hname : expectName "constant name" start.advance.advance =
        .done "x" start.advance.advance.advance := by
      rw [expectName_run, State.current_eq hahead₂]
      rfl
    rw [constant]
    show Parser.bind (expectName _) _ _ = _
    rw [Parser.bind, hname]
    exact bind_failed (expr_failed hahead₃ rfl h)
  have hform : form expr start = .failed error := by
    have hrest : formAt? expr (tokenAt .keyword "define-constant") =
        some fun start => whole (constant expr start) := rfl
    rw [form, advance_bind_run, State.current_eq hahead, if_neg (by decide), peek_bind_run,
      State.current_eq hahead₁, hrest]
    dsimp only
    rw [advance_bind_run]
    refine bind_failed ?_
    rw [unlessInterrupted, hconstant]
  have hcontract : contract expr start = .failed error := by
    rw [contract, peek_bind_run]
    refine bind_failed ?_
    show forms expr _ = _
    rw [forms_cons expr_orderly (hahead ▸ cons_ne_nil _ _)]
    refine bind_failed ?_
    rw [formThenResume, peek_bind_run, ask_bind_run]
    exact bind_failed hform
  rw [parseTokens, parseTokensWithin, ← expr, hstart, hcontract]

theorem parseTokens_tooLong {digits} (hdigits : Text.Numeral.AllDigits digits)
    (hlong : maxDigits < digits.length) :
    parseTokens (constantTokens (String.ofList digits)) = .error (.tooLong digits.length) := by
  have hne : digits ≠ [] := ne_nil_of_length_pos (by omega)
  refine parseTokens_constantTokens ?_
  rw [read_unsigned hdigits.allDecimal hne, if_pos hlong]

theorem allDigits_constantTokens (h : Text.Numeral.AllDigits numeral.toList) :
    ∀ token ∈ constantTokens numeral, token.kind = .int ∨ token.kind = .uint →
      Text.Numeral.AllDigits token.value.toList := by
  simp [constantTokens, tokenAt, h]

def ones (count : Nat) : List Char :=
  List.replicate count '1'

theorem parseTokens_ones : (∀ token ∈ constantTokens (String.ofList (ones 4301)),
      token.kind = .int ∨ token.kind = .uint → Text.Numeral.AllDigits token.value.toList) ∧
    parseTokens (constantTokens (String.ofList (ones 4301))) = .error (.tooLong 4301) := by
  have hdigits (count : Nat) : Text.Numeral.AllDigits (ones count) := by
    intro c hc
    rw [List.eq_of_mem_replicate hc]
    rfl
  have hlength : (ones 4301).length = 4301 := List.length_replicate
  refine ⟨allDigits_constantTokens ?_, ?_⟩
  · rw [String.toList_ofList]
    exact hdigits 4301
  · rw [parseTokens_tooLong (hdigits 4301) (by rw [hlength]; decide), hlength]

end ContractAudit
