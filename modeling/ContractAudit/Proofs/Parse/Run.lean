import ContractAudit.Parse.Forms

/-!
# Runs of parsers

What a run of each basic parser gives, as an equation in the state it starts from. `bind_eq_done`
takes a run of two parsers in a row apart. The proofs about the grammar open no basic parser other
than through the equations here.
-/

namespace ContractAudit

open Parse

variable {p : ParseResult → Prop}

namespace Parse.State

variable {chars : List Char} {rest : List Token} {state : State}
  {source : String} {token : Token}

/-! ## What is seen of the token list

Nothing behind the first end of input is seen, except by a look at the second token where the end of
input is the first. -/

theorem current_headD (state : State) : state.current = state.ahead.headD state.finish := by
  rw [current, peek, unread]
  cases state.ahead <;> rfl

theorem current_eq (h : state.ahead = token :: rest) : state.current = token := by
  rw [current_headD, h]
  rfl

theorem second_headD (h : state.ahead = token :: rest) :
    state.second = rest.headD state.finish := by
  rw [second, peek, unread, h]
  cases rest <;> rfl

theorem second_eq {first second : Token}
    (h : state.ahead = first :: second :: rest) : state.second = second :=
  second_headD h

theorem atEnd_iff : state.atEnd = true ↔ state.ahead = [] := by
  rw [atEnd, decide_eq_true_eq, current_headD]
  cases hahead : state.ahead with
  | nil => exact iff_of_true state.finish_kind rfl
  | cons token rest =>
      exact iff_of_false (state.live token (hahead ▸ List.mem_cons_self)) (List.cons_ne_nil _ _)

theorem ne_nil_of_current (h : state.current.kind ≠ .endOfInput) : state.ahead ≠ [] := by
  intro hnil
  rw [current_headD, hnil] at h
  exact h state.finish_kind

theorem atEnd_eq_isEmpty (state : State) : state.atEnd = state.ahead.isEmpty := by
  rw [Bool.eq_iff_iff, atEnd_iff, List.isEmpty_iff]

/-- The state in which only some of the tokens before the end of input are left. -/
abbrev readTo (state : State) (previous : Token) (rest : List Token)
    (h : rest <:+ state.ahead) : State :=
  { state with
    previous := previous
    ahead := rest
    live := fun token htoken => state.live token (h.subset htoken) }

theorem goTo_append (previous : Token) (h : rest <:+ state.ahead) :
    state.goTo previous (rest ++ state.finish :: state.beyond) = state.readTo previous rest h := by
  obtain ⟨used, hused⟩ := h
  have hcount : state.unread.length - (rest ++ state.finish :: state.beyond).length =
      used.length := by
    rw [unread, ← hused, List.append_assoc, List.length_append, Nat.add_sub_cancel]
  have hdrop : state.ahead.drop used.length = rest := by rw [← hused, List.drop_left]
  simp only [goTo, readTo, hcount, hdrop]

theorem advance_eq (h : state.ahead = token :: rest) :
    state.advance = state.readTo token rest ⟨[token], h.symm⟩ := by
  have hmore : state.atEnd ≠ true := by simp [atEnd_iff, h]
  have hdrop : state.unread.drop 1 = rest ++ state.finish :: state.beyond := by
    rw [unread, h]
    rfl
  rw [advance, if_neg hmore, hdrop, current_eq h, goTo_append _ ⟨[token], h.symm⟩]

theorem ahead_advance (h : state.ahead = token :: rest) : state.advance.ahead = rest := by
  rw [advance_eq h]

theorem advance_of_nil (h : state.ahead = []) : state.advance = state := by
  rw [advance, if_pos (atEnd_iff.mpr h)]

theorem sees_iff {kind} : state.sees kind = true ↔ state.current.kind = kind := by
  simp [sees]

theorem ne_nil_of_sees {kind} (h : state.sees kind = true) (hkind : kind ≠ .endOfInput) :
    state.ahead ≠ [] :=
  ne_nil_of_current (sees_iff.mp h ▸ hkind)

theorem ahead_of_current (h : state.current.kind ≠ .endOfInput) :
    ∃ rest, state.ahead = state.current :: rest := by
  obtain ⟨token, rest, hahead⟩ := List.exists_cons_of_ne_nil (ne_nil_of_current h)
  exact ⟨rest, by rw [current_eq hahead, hahead]⟩

theorem inBody_iff :
    state.inBody = true ↔ ∃ token rest, state.ahead = token :: rest ∧ token.kind ≠ .rightParen := by
  cases hahead : state.ahead with
  | nil => simp [inBody, atEnd_eq_isEmpty, hahead]
  | cons token rest => simp [inBody, atEnd_eq_isEmpty, sees, current_headD, hahead]

theorem advance_previous (h : state.ahead ≠ []) (token : Token) :
    ({ state with previous := token } : State).advance = state.advance := by
  obtain ⟨first, rest, hahead⟩ := List.exists_cons_of_ne_nil h
  have hfirst : ({ state with previous := token } : State).ahead = first :: rest := hahead
  rw [advance_eq hfirst, advance_eq hahead]

@[simp]
theorem advance_errors (state : State) : state.advance.errors = state.errors := by
  unfold advance
  split <;> rfl

@[simp]
theorem advance_nextId (state : State) : state.advance.nextId = state.nextId := by
  unfold advance
  split <;> rfl

theorem length_advance (state : State) : state.advance.ahead.length = state.ahead.length - 1 := by
  cases hahead : state.ahead with
  | nil => rw [advance_of_nil hahead, hahead, List.length_nil]
  | cons token rest => rw [advance_eq hahead, List.length_cons, Nat.add_sub_cancel]

@[simp]
theorem report_errors (state : State) (code : Code) (message : String) (location : Location) :
    (state.report code message location).errors =
      state.errors ++ [.error .parse code message location] := rfl

end Parse.State

namespace Parser

variable {α β : Type} {s s' : State} {first : Parser α} (next : Token → Parser α)
  (question : State → α) (start : Location) (what : String)

/-! ## Runs that end with a value -/

theorem bind_run_of_done {next : α → Parser β} {value : α} (h : first s = .done value s') :
    (first >>= next) s = next value s' := by
  show Parser.bind first next s = _
  rw [Parser.bind, h]

theorem bind_eq_done {next} {value : β} : (first >>= next) s = .done value s' ↔
      ∃ middle s₁, first s = .done middle s₁ ∧ next middle s₁ = .done value s' := by
  show Parser.bind first next s = _ ↔ _
  unfold Parser.bind
  cases first s with
  | done middle s₁ =>
      constructor
      · intro h
        exact ⟨middle, s₁, rfl, h⟩
      · rintro ⟨_, _, h, hnext⟩
        cases h
        exact hnext
  | interrupted s₁ => simp
  | failed error => simp

@[simp]
theorem pure_run (value : α) (s : State) : (pure value : Parser α) s = .done value s := rfl

@[simp]
theorem ask_run (s : State) : ask question s = .done (question s) s := rfl

@[simp]
theorem change_run (update : State → State) (s : State) :
    change update s = .done () (update s) := rfl

@[simp]
theorem peek_run (s : State) : peek s = .done s.current s := rfl

@[simp]
theorem advance_run (s : State) : advance s = .done s.current s.advance := rfl

@[simp]
theorem report_run (code : Code) (message : String) (location : Location) (s : State) :
    report code message location s = .done () (s.report code message location) := rfl

@[simp]
theorem reportHere_run (message : String) (s : State) :
    reportHere message s = .done () (s.reportHere message) := rfl

@[simp]
theorem spanFrom_run (s : State) : spanFrom start s = .done ⟨start, s.previous.finish⟩ s := rfl

@[simp]
theorem newId_run (s : State) : newId s = .done s.nextId { s with nextId := s.nextId + 1 } := rfl

@[simp]
theorem infoFrom_run (s : State) : infoFrom start s =
      .done ⟨⟨start, s.previous.finish⟩, s.nextId⟩ { s with nextId := s.nextId + 1 } := rfl

@[simp]
theorem infoAt_run (location : Location) (s : State) : infoAt location s =
      .done ⟨.point location, s.nextId⟩ { s with nextId := s.nextId + 1 } := rfl

theorem expect_run (kind : TokenKind) (message : String) (s : State) : expect kind message s =
      if s.sees kind then .done true s.advance else .done false (s.reportHere message) := by
  show (if s.sees kind then _ else _ : Parser Bool) s = _
  split <;> rfl

theorem expectName_run (s : State) : expectName what s =
      if s.current.kind.isName then .done s.current.value s.advance
      else .done placeholder (s.reportHere s!"Expected {what}") := by
  show (if s.current.kind.isName then _ else _ : Parser String) s = _
  split <;> rfl

def unclosed (what : String) (s : State) : State :=
  if s.atEnd then
    s.report .unterminatedForm s!"Unexpected end of input: expected ')' to close {what}"
      s.current.location
  else s.reportHere s!"Expected ')' after {what}"

theorem close_run (s : State) : close what s =
      if s.sees .rightParen then .done () s.advance else .done () (unclosed what s) := by
  show (if s.sees .rightParen then _ else _ : Parser Unit) s = _
  split
  · rfl
  · show (if s.atEnd then _ else _ : Parser Unit) s = _
    unfold unclosed
    split <;> rfl

theorem integer_eq_done {text} {value : Int} :
    integer text s = .done value s' ↔ Text.Numeral.read text = .ok value ∧ s' = s := by
  unfold integer
  cases Text.Numeral.read text with
  | error error => simp [fail]
  | ok number => simp [eq_comm]

/-! ## Runs of two parsers in a row -/

theorem ask_bind_run (next : α → Parser β) (s : State) :
    (ask question >>= next) s = next (question s) s := rfl

theorem peek_bind_run (s : State) : (peek >>= next) s = next s.current s := rfl

theorem advance_bind_run (s : State) : (advance >>= next) s = next s.current s.advance := rfl

theorem bind_congr_run {first'} (h : first s = first' s') (next : α → Parser β) :
    (first >>= next) s = (first' >>= next) s' := by
  show Parser.bind first next s = Parser.bind first' next s'
  unfold Parser.bind
  rw [h]

/-! ## Loops over the token list

Each of them stops at the first end of input, so that it gives the same for the tokens before it. -/

theorem dottedTail_unread (last : Token) (name : String) (s : State) :
    dottedTail last name s.unread =
      ((dottedTail last name s.ahead).1, (dottedTail last name s.ahead).2.1,
        (dottedTail last name s.ahead).2.2 ++ s.finish :: s.beyond) := by
  rw [State.unread]
  fun_induction dottedTail last name s.ahead with
  | case1 last name dot word rest hjoined ih =>
      rw [List.cons_append, List.cons_append, dottedTail, if_pos hjoined, ih]
  | case2 last name dot word rest hjoined =>
      rw [List.cons_append, List.cons_append, dottedTail, if_neg hjoined]
  | case3 last name tokens hshort =>
      -- At most one token is left, and the end of input is neither a dot nor a name.
      rcases tokens with _ | ⟨token, _ | ⟨word, rest⟩⟩
      · cases s.beyond <;> simp [dottedTail, s.finish_kind]
      · simp [dottedTail, s.finish_kind, TokenKind.isName]
      · exact absurd rfl (hshort token word rest)

section Unread

variable {tokens : List Token} (hlive : ∀ token ∈ tokens, token.kind ≠ .endOfInput)
  {finish : Token} (hfinish : finish.kind = .endOfInput) (beyond : List Token)

include hlive hfinish

theorem skipBrackets_append_end (previous : Token) (level : Nat) :
    skipBrackets previous level (tokens ++ finish :: beyond) =
      ((skipBrackets previous level tokens).1,
        (skipBrackets previous level tokens).2 ++ finish :: beyond) := by
  induction tokens generalizing previous level with
  | nil => simp [skipBrackets, hfinish]
  | cons token rest ih =>
      have hrest := ih fun other hother => hlive other (List.mem_cons_of_mem _ hother)
      have htoken := hlive token List.mem_cons_self
      rw [List.cons_append, skipBrackets, skipBrackets]
      cases hkind : token.kind with
      | endOfInput => exact absurd hkind htoken
      | rightParen | rightBrace =>
          dsimp only
          split
          · rfl
          · exact hrest _ _
      | _ => exact hrest _ _

omit hlive in
theorem startsDefinition_append_end (token : Token) :
    startsDefinition (token :: (tokens ++ finish :: beyond)) =
      startsDefinition (token :: tokens) := by
  cases tokens with
  | nil => simp [startsDefinition, hfinish]
  | cons second rest => rfl

theorem skipToForm_append_end (line : Int) (previous : Token) :
    skipToForm line previous (tokens ++ finish :: beyond) =
      ((skipToForm line previous tokens).1,
        (skipToForm line previous tokens).2 ++ finish :: beyond) := by
  induction tokens generalizing previous with
  | nil => simp [skipToForm, hfinish]
  | cons token rest ih =>
      have hrest := ih fun other hother => hlive other (List.mem_cons_of_mem _ hother)
      rw [List.cons_append, skipToForm, skipToForm, startsDefinition_append_end hfinish]
      split
      · rfl
      · exact hrest _

theorem moreFollows_append_end (depth : Nat) :
    moreFollows depth (tokens ++ finish :: beyond) = moreFollows depth tokens := by
  induction tokens generalizing depth with
  | nil => simp [moreFollows, hfinish]
  | cons token rest ih =>
      have hrest := ih fun other hother => hlive other (List.mem_cons_of_mem _ hother)
      rw [List.cons_append, moreFollows, moreFollows]
      cases hkind : token.kind with
      | rightParen =>
          dsimp only
          split
          · cases rest <;> simp [hfinish]
          · exact hrest _
      | endOfInput => rfl
      | _ => exact hrest _

end Unread

theorem armPattern?_of_nil (h : s.ahead = []) : armPattern? s = .done none s := by
  rw [armPattern?, ask_bind_run]
  split
  · rfl
  · rw [pattern, h]
    rfl

theorem moreFollows_unread (depth : Nat) (s : State) :
    moreFollows depth s.unread = moreFollows depth s.ahead :=
  moreFollows_append_end s.live s.finish_kind s.beyond depth

/-! ## Looking ahead -/

theorem moreFollows_leftParen (h : token.kind = .leftParen) (depth : Nat)
    (rest : List Token) : moreFollows depth (token :: rest) = moreFollows (depth + 1) rest := by
  rw [moreFollows, h]

theorem moreFollows_rightParen (h : token.kind = .rightParen) (depth : Nat) (rest : List Token) :
    moreFollows depth (token :: rest) =
      if depth = 1 then
        rest.head?.any (fun next => next.kind ≠ .rightParen && next.kind ≠ .endOfInput)
      else moreFollows (depth - 1) rest := by
  rw [moreFollows, h]

theorem moreFollows_cons (hleft : token.kind ≠ .leftParen)
    (hright : token.kind ≠ .rightParen) (hend : token.kind ≠ .endOfInput) (depth : Nat)
    (rest : List Token) : moreFollows depth (token :: rest) = moreFollows depth rest := by
  rw [moreFollows]
  split
  · next hopen => exact absurd hopen hleft
  · next hclose => exact absurd hclose hright
  · next hfinish => exact absurd hfinish hend
  · rfl

end Parser

/-! ## The first state -/

theorem meaningful_split (tokens : List Token) : ∃ front last back,
      meaningful tokens = front ++ last :: back ∧ last.kind = .endOfInput ∧
        ∀ token ∈ front, token.kind ≠ .endOfInput := by
  have hend : ∃ token ∈ meaningful tokens, token.kind = .endOfInput := by
    unfold meaningful
    dsimp only
    split
    · next hlast =>
        obtain ⟨token, htoken, hkind⟩ := Option.any_eq_true .. |>.mp hlast
        exact ⟨token, List.mem_of_getLast? htoken, of_decide_eq_true hkind⟩
    · exact ⟨endAfter _, List.mem_append_right _ List.mem_cons_self, rfl⟩
  obtain ⟨token, htoken, hkind⟩ := hend
  cases hfind : (meaningful tokens).find? fun token => token.kind = .endOfInput with
  | none => exact absurd (decide_eq_true hkind) (List.find?_eq_none.mp hfind token htoken)
  | some last =>
      obtain ⟨hlast, front, back, hsplit, hfront⟩ := List.find?_eq_some_iff_append.mp hfind
      exact ⟨front, last, back, hsplit, of_decide_eq_true hlast, fun token htoken => by
        simpa using hfront token htoken⟩

theorem ahead_ofTokens (tokens : List Token) : (State.ofTokens tokens).ahead =
      (tokens.takeWhile fun token => token.kind ≠ .endOfInput).filter fun token =>
        !token.kind.isGap := by
  have hkept : (State.ofTokens tokens).ahead =
      (tokens.filter fun token => !token.kind.isGap).takeWhile fun token =>
        token.kind ≠ .endOfInput := by
    show (meaningful tokens).takeWhile _ = _
    unfold meaningful
    dsimp only
    split
    · rfl
    · rw [List.takeWhile_append]
      split
      · next hall =>
          rw [(List.takeWhile_sublist _).eq_of_length hall,
            List.takeWhile_cons_of_neg (by simp [endAfter]),
            List.append_nil]
      · rfl
  rw [hkept]
  clear hkept
  induction tokens with
  | nil => rfl
  | cons token rest ih =>
      by_cases hend : token.kind = .endOfInput
      · simp [hend, TokenKind.isGap]
      · by_cases hgap : token.kind.isGap = true
        · simpa [hend, hgap] using ih
        · simpa [hend, hgap] using ih

theorem ofTokens_eq {tokens front back : List Token} {last : Token}
    (h : meaningful tokens = front ++ last :: back) (hlast : last.kind = .endOfInput)
    (hfront : ∀ token ∈ front, token.kind ≠ .endOfInput) :
    State.ofTokens tokens = ⟨front.headD last, front, hfront, last, hlast, back, 0, []⟩ := by
  have hpos (token) (htoken : token ∈ front) : decide (token.kind ≠ .endOfInput) = true :=
    decide_eq_true (hfront token htoken)
  have htake : (front ++ last :: back).takeWhile (fun token => token.kind ≠ .endOfInput) =
      front := by
    rw [List.takeWhile_append_of_pos hpos, List.takeWhile_cons_of_neg (by simp [hlast]),
      List.append_nil]
  have hdrop : (front ++ last :: back).dropWhile (fun token => token.kind ≠ .endOfInput) =
      last :: back := by
    rw [List.dropWhile_append_of_pos hpos, List.dropWhile_cons_of_neg (by simp [hlast])]
  have hnone : front.find? (fun token => token.kind = .endOfInput) = none :=
    List.find?_eq_none.mpr fun token htoken => by simpa using hfront token htoken
  have hfinish : endToken (front ++ last :: back) = last := by
    simp [endToken, List.find?_append, hnone, hlast]
  have hhead : (front ++ last :: back).headD last = front.headD last := by cases front <;> rfl
  simp only [State.ofTokens, h, htake, hdrop, hfinish, hhead, List.tail_cons]

/-! ## Computing -/

/-- The tokens of a text with some characters. They are computed from the characters with much less
work than from the bytes of the text. -/
def tokensOf (chars : List Char) : List Token :=
  (Scan.piecesFrom .start 0 chars).filterMap Piece.token? ++
    [⟨.endOfInput, "", "", Location.start.after chars⟩]

theorem tokenize_eq_tokensOf
    (h : source = String.ofList chars) : tokenize source = tokensOf chars := by
  rw [h, tokenize, pieces, String.toList_ofList, tokensOf]

theorem append_eq_ofList {first second more}
    (hfirst : first = String.ofList chars) (hsecond : second = String.ofList more) :
    first ++ second = String.ofList (chars ++ more) := by
  rw [hfirst, hsecond, String.ofList_append]

/-- What a parse gives can be found out by computing it. -/
theorem exists_parseTokens [DecidablePred p] {tokens}
    (h : (parseTokens tokens).toOption.any (fun result => decide (p result)) = true) :
    ∃ result, parseTokens tokens = .ok result ∧ p result := by
  cases hparse : parseTokens tokens with
  | ok result =>
      rw [hparse] at h
      exact ⟨result, rfl, of_decide_eq_true h⟩
  | error error =>
      rw [hparse] at h
      cases h

theorem exists_parse [DecidablePred p] (hsource : source = String.ofList chars)
    (h : (parseTokens (tokensOf chars)).toOption.any (fun result => decide (p result)) = true) :
    ∃ result, parse source = .ok result ∧ p result := by
  rw [parse, tokenize_eq_tokensOf hsource]
  exact exists_parseTokens h

theorem parse_eq_error {error} (h : (match parse source with
      | .ok _ => false
      | .error reason => decide (reason = error)) = true) : parse source = .error error := by
  cases hparse : parse source with
  | ok result =>
      rw [hparse] at h
      cases h
  | error reason =>
      rw [hparse, decide_eq_true_eq] at h
      rw [h]

end ContractAudit
