import ContractAudit.Proofs.Parse.Onward
import ContractAudit.Proofs.Syntax.Move

/-!
# Parsing a text that is moved

A parser compares places only with each other, counts nodes only upwards and never reads the errors
that it records, so on a moved text it does the same and gives the same, moved, whatever errors were
recorded before. `Moves` says so of a parser and of the one it becomes when the places that it is
given are moved too.
-/

namespace ContractAudit

open Parse List ContractAudit.Expr

variable {more : State → Bool} {d : Displacement} {past : List Diagnostic} {beyond : List Token}

/-- The state of a moved text, with errors recorded before and with other tokens behind the end of
input. -/
def Parse.State.move (d : Displacement) (s : State) (past : List Diagnostic := [])
    (beyond : List Token := []) : State where
  previous := s.previous.move d
  ahead := s.ahead.map (Token.move d)
  live := fun _ htoken => by
    obtain ⟨token, hmem, rfl⟩ := mem_map.mp htoken
    exact s.live token hmem
  finish := s.finish.move d
  finish_kind := s.finish_kind
  beyond := beyond
  nextId := s.nextId + d.nodes
  errors := past ++ s.errors.map (Diagnostic.move d)

def Parse.Step.move {α : Type} (d : Displacement) (f : α → α) (step : Step α)
    (past : List Diagnostic := []) (beyond : List Token := []) : Step α :=
  match step with
  | .done value s => .done (f value) (s.move d past beyond)
  | .interrupted s => .interrupted (s.move d past beyond)
  | .failed error => .failed error

namespace Parse.State

variable (s : State)

theorem current_move : (s.move d past beyond).current = s.current.move d := by
  cases hahead : s.ahead <;> simp [current_headD, move, hahead]

variable {s} in
theorem second_move (h : s.ahead ≠ []) :
    (s.move d past beyond).second = s.second.move d := by
  obtain ⟨token, rest, hahead⟩ := exists_cons_of_ne_nil h
  have hmoved : (s.move d past beyond).ahead = token.move d :: rest.map (Token.move d) := by
    simp [move, hahead]
  rw [second_headD hmoved, second_headD hahead]
  cases rest <;> rfl

theorem atEnd_move : (s.move d past beyond).atEnd = s.atEnd := by
  simp [atEnd_eq_isEmpty, move]

theorem length_move : (s.move d past beyond).ahead.length = s.ahead.length :=
  length_map _

theorem sees_move (kind : TokenKind) : (s.move d past beyond).sees kind = s.sees kind := by
  rw [sees, current_move]
  rfl

theorem inBody_move : (s.move d past beyond).inBody = s.inBody := by
  rw [inBody, sees_move, atEnd_move]
  rfl

theorem advance_move : (s.move d past beyond).advance = s.advance.move d past beyond := by
  cases hahead : s.ahead with
  | nil => rw [advance_of_nil hahead, advance_of_nil (by simp [move, hahead])]
  | cons token rest =>
      rw [advance_eq hahead,
        advance_eq (show (s.move d past beyond).ahead = token.move d :: rest.map (Token.move d) by
          simp [move, hahead])]
      rfl

theorem report_move (code : Code) (message : String) (location : Location) :
    (s.move d past beyond).report code message (location.move d) =
      (s.report code message location).move d past beyond := by
  simp [report, move, Diagnostic.move, Diagnostic.error]

theorem reportHere_move (message : String) :
    (s.move d past beyond).reportHere message = (s.reportHere message).move d past beyond := by
  unfold reportHere
  rw [current_move]
  exact report_move s _ _ _

end Parse.State

namespace Parser

variable {α β : Type} {f : α → α} {g : β → β} {make make' : NodeInfo → α} {keyword : String}
  (levels : Nat) (last : Token) (line : Int) (what : String) (token : Token) (kind : TokenKind)
  (start : Location) (previous : Token) (message : String) (location : Location)
  (tokens : List Token)

/-- On a moved text the second parser does what the first one does, and gives the same, moved. -/
def Moves (d : Displacement) (past : List Diagnostic) (beyond : List Token) (f : α → α)
    (parser moved : Parser α) : Prop :=
  ∀ s, moved (s.move d past beyond) = (parser s).move d f past beyond

theorem Moves.bind {first first' next next'} (hfirst : Moves d past beyond f first first')
    (hnext : ∀ value, Moves d past beyond g (next value) (next' (f value))) :
    Moves d past beyond g (first >>= next) (first' >>= next') := by
  intro s
  show Parser.bind first' next' (s.move d past beyond) = (Parser.bind first next s).move
    d g past beyond
  unfold Parser.bind
  rw [hfirst s]
  cases first s with
  | done value s₁ => exact hnext value s₁
  | interrupted s₁ => rfl
  | failed error => rfl

theorem moves_ite {p : Prop} [Decidable p] {yes yes' no no'}
    (hyes : Moves d past beyond f yes yes') (hno : Moves d past beyond f no no') :
    Moves d past beyond f (if p then yes else no) (if p then yes' else no') := by
  split
  · exact hyes
  · exact hno

/-! ## Basic parsers -/

theorem pure_moves {value value' : α} (h : value' = f value) :
    Moves d past beyond f (pure value) (pure value') := by
  intro s
  rw [h]
  rfl

theorem ask_moves {question} (h : ∀ s, question (s.move d past beyond) = f (question s)) :
    Moves d past beyond f (ask question) (ask question) := by
  intro s
  rw [ask_run, ask_run, h]
  rfl

theorem change_moves {update update'} (h : ∀ s, update' (s.move d past beyond) =
    (update s).move d past beyond) :
    Moves d past beyond id (change update) (change update') := by
  intro s
  rw [change_run, change_run, h]
  rfl

theorem peek_moves : Moves d past beyond (Token.move d) peek peek :=
  ask_moves State.current_move

theorem sees_moves : Moves d past beyond id (ask (·.sees kind)) (ask (·.sees kind)) :=
  ask_moves fun s => s.sees_move kind

theorem inBody_moves : Moves d past beyond id (ask State.inBody) (ask State.inBody) :=
  ask_moves State.inBody_move

theorem advance_moves : Moves d past beyond (Token.move d) advance advance := by
  intro s
  rw [advance_run, advance_run, State.current_move, State.advance_move]
  rfl

theorem report_moves (code : Code) (message : String) (location : Location) :
    Moves d past beyond id (report code message location) (report code message (location.move d)) :=
  change_moves fun s => s.report_move code message location

theorem reportHere_moves : Moves d past beyond id (reportHere message) (reportHere message) :=
  change_moves fun s => s.reportHere_move message

theorem integer_moves (text : String) : Moves d past beyond id (integer text) (integer text) := by
  unfold integer
  split
  · exact pure_moves rfl
  · exact fun _ => rfl

theorem spanFrom_moves :
    Moves d past beyond (Span.move d) (spanFrom start) (spanFrom (start.move d)) := by
  intro s
  simp [Step.move, State.move, Span.move, Token.finish_move]

theorem infoFrom_moves :
    Moves d past beyond (NodeInfo.move d) (infoFrom start) (infoFrom (start.move d)) := by
  intro s
  simp [Step.move, State.move, Span.move, NodeInfo.move, Token.finish_move, Nat.add_right_comm]

theorem infoAt_moves :
    Moves d past beyond (NodeInfo.move d) (infoAt location) (infoAt (location.move d)) := by
  intro s
  simp [Step.move, State.move, Span.move, Span.point, NodeInfo.move, Nat.add_right_comm]

/-- A node is made of what has been read. -/
theorem node_moves {start} (hmake : ∀ info, make' (info.move d) = f (make info)) :
    Moves d past beyond f (do pure (make (← infoFrom start)))
      (do pure (make' (← infoFrom (start.move d)))) :=
  .bind (infoFrom_moves _) fun info => pure_moves (hmake info)

theorem expect_moves : Moves d past beyond id (expect kind message) (expect kind message) :=
  .bind (sees_moves kind) fun _ => moves_ite (.bind advance_moves fun _ => pure_moves rfl)
    (.bind (reportHere_moves _) fun _ => pure_moves rfl)

theorem expectName_moves : Moves d past beyond id (expectName what) (expectName what) :=
  .bind peek_moves fun _ => moves_ite (.bind advance_moves fun _ => pure_moves rfl)
    (.bind (reportHere_moves _) fun _ => pure_moves rfl)

theorem close_moves : Moves d past beyond id (close what) (close what) :=
  .bind (sees_moves _) fun _ => moves_ite (.bind advance_moves fun _ => pure_moves rfl)
    (.bind (ask_moves (f := id) State.atEnd_move) fun _ => moves_ite
      (.bind peek_moves fun _ => report_moves _ _ _) (reportHere_moves _))

theorem closeNode_moves {start} (hmake : ∀ info, make' (info.move d) = f (make info)) :
    Moves d past beyond f (do
        close what
        pure (make (← infoFrom start)))
      (do
        close what
        pure (make' (← infoFrom (start.move d)))) :=
  .bind (close_moves _) fun _ => node_moves hmake

section Combinators

variable {item item' : Parser α}

theorem repeatUpTo_moves (hmore : ∀ s, more (s.move d past beyond) = more s)
    (hitem : Moves d past beyond f item item') (bound : Nat) :
    Moves d past beyond (List.map f) (repeatUpTo more item bound)
      (repeatUpTo more item' bound) := by
  induction bound with
  | zero => exact pure_moves rfl
  | succ bound ih =>
      exact .bind (ask_moves (f := id) hmore) fun _ => moves_ite
        (.bind hitem fun _ => .bind ih fun _ => pure_moves rfl) (pure_moves rfl)

theorem repeatWhile_moves (hmore : ∀ s, more (s.move d past beyond) = more s)
    (hitem : Moves d past beyond f item item') :
    Moves d past beyond (List.map f) (repeatWhile more item) (repeatWhile more item') := by
  intro s
  unfold repeatWhile
  rw [s.length_move]
  exact repeatUpTo_moves hmore hitem _ s

theorem separatedUpTo_moves (hitem : Moves d past beyond f item item') (bound : Nat) :
    Moves d past beyond (List.map f) (separatedUpTo item bound) (separatedUpTo item' bound) := by
  induction bound with
  | zero => exact pure_moves rfl
  | succ bound ih =>
      refine .bind (ask_moves (f := id) fun s => ?_) fun _ => moves_ite (pure_moves rfl)
        (.bind hitem fun _ => .bind (sees_moves _) fun _ => moves_ite
          (.bind advance_moves fun _ => .bind ih fun _ => pure_moves rfl) (pure_moves rfl))
      rw [s.sees_move, s.atEnd_move]
      rfl

theorem separated_moves (hitem : Moves d past beyond f item item') :
    Moves d past beyond (List.map f) (separated item) (separated item') := by
  intro s
  unfold separated
  rw [s.length_move]
  exact separatedUpTo_moves hitem _ s

theorem unlessClosed_moves (hitem : Moves d past beyond f item item') :
    Moves d past beyond (Option.map f) (unlessClosed item) (unlessClosed item') :=
  .bind inBody_moves fun _ => moves_ite (.bind hitem fun _ => pure_moves rfl) (pure_moves rfl)

theorem parenthesized_moves {items items'} (what : String)
    (hitems : Moves d past beyond (List.map f) items items') :
    Moves d past beyond (List.map f) (parenthesized message what items)
      (parenthesized message what items') :=
  .bind (expect_moves _ _) fun _ => moves_ite
    (.bind hitems fun _ => .bind (close_moves _) fun _ => pure_moves rfl) (pure_moves rfl)

theorem unlessInterrupted_moves (hitem : Moves d past beyond f item item') :
    Moves d past beyond (Option.map f) (unlessInterrupted item) (unlessInterrupted item') := by
  intro s
  unfold unlessInterrupted
  rw [hitem s]
  cases item s <;> rfl

end Combinators

/-! ## Types -/

section Types

variable {nested nested' : Parser TypeSpec}

section

variable (h : Moves d past beyond (TypeSpec.move d) nested nested')

include h

theorem parenTypeField_moves :
    Moves d past beyond (TypeSpec.moveField d) (parenTypeField nested) (parenTypeField nested') :=
  .bind advance_moves fun _ => .bind (expectName_moves _) fun _ => .bind h fun _ =>
    .bind (close_moves _) fun _ => pure_moves rfl

theorem braceTypeField_moves :
    Moves d past beyond (TypeSpec.moveField d) (braceTypeField nested) (braceTypeField nested') :=
  .bind (expectName_moves _) fun _ => .bind (expect_moves _ _) fun _ => .bind h fun _ =>
    pure_moves rfl

theorem typeParam_moves :
    Moves d past beyond (TypeParam.move d) (typeParam nested) (typeParam nested') :=
  .bind peek_moves fun _ => moves_ite
    (.bind advance_moves fun _ => .bind (integer_moves _) fun _ => pure_moves rfl)
    (.bind h fun _ => pure_moves rfl)

theorem parenType_moves :
    Moves d past beyond (TypeSpec.move d) (parenType nested) (parenType nested') :=
  .bind advance_moves fun _ => .bind (expectName_moves _) fun _ => moves_ite
    (.bind (repeatWhile_moves (·.sees_move _) (parenTypeField_moves h)) fun _ =>
      .bind (close_moves _) fun _ => .bind (spanFrom_moves _) fun _ =>
        pure_moves (by simp [TypeSpec.move, TypeSpec.moveFields_eq]))
    (.bind (repeatWhile_moves State.inBody_move (typeParam_moves h)) fun _ =>
      .bind (close_moves _) fun _ => .bind (spanFrom_moves _) fun _ =>
        pure_moves (by simp [TypeSpec.move, TypeSpec.moveParams_eq]))

theorem braceType_moves :
    Moves d past beyond (TypeSpec.move d) (braceType nested) (braceType nested') :=
  .bind advance_moves fun _ => .bind (separated_moves (braceTypeField_moves h)) fun _ =>
    .bind (expect_moves _ _) fun _ => .bind (spanFrom_moves _) fun _ =>
      pure_moves (by simp [TypeSpec.move, TypeSpec.moveFields_eq])

end

theorem badType_moves : Moves d past beyond (TypeSpec.move d) badType badType :=
  .bind peek_moves fun _ => .bind (reportHere_moves _) fun _ => moves_ite
    (.bind advance_moves fun _ => .bind (spanFrom_moves _) fun _ => pure_moves rfl)
    (.bind (spanFrom_moves _) fun _ => pure_moves rfl)

theorem wordType_moves :
    Moves d past beyond (TypeSpec.move d) (wordType token) (wordType (token.move d)) :=
  .bind advance_moves fun _ => .bind (spanFrom_moves _) fun _ =>
    pure_moves (TypeSpec.ofWord_move d _ _).symm

theorem typeSpecWith_moves (h : Moves d past beyond (TypeSpec.move d) nested nested') :
    Moves d past beyond (TypeSpec.move d) (typeSpecWith nested) (typeSpecWith nested') := by
  refine .bind peek_moves ?_
  rintro ⟨kind, value, raw, location⟩
  cases kind with
  | identifier | keyword => exact wordType_moves _
  | leftBrace => exact braceType_moves h
  | leftParen => exact parenType_moves h
  | _ => exact badType_moves

theorem typeSpecWithin_moves :
    Moves d past beyond (TypeSpec.move d) (typeSpecWithin levels) (typeSpecWithin levels) := by
  induction levels with
  | zero => exact badType_moves
  | succ levels ih => exact typeSpecWith_moves ih

theorem typeSpec_moves : Moves d past beyond (TypeSpec.move d) typeSpec typeSpec := by
  intro s
  unfold typeSpec
  rw [s.length_move]
  exact typeSpecWithin_moves _ s

end Types

/-! ## Literals and patterns -/

theorem literalValue_moves :
    Moves d past beyond id (literalValue token) (literalValue (token.move d)) := by
  obtain ⟨kind, value, raw, location⟩ := token
  cases kind with
  | uint | int => exact .bind (integer_moves _) fun _ => pure_moves rfl
  | _ => exact pure_moves rfl

theorem literal_moves : Moves d past beyond (Prod.map (NodeInfo.move d) id) literal literal :=
  .bind advance_moves fun token => .bind (literalValue_moves token) fun _ =>
    node_moves fun _ => rfl

theorem moreFollows_move (depth : Nat) (tokens : List Token) :
    moreFollows depth (tokens.map (Token.move d)) = moreFollows depth tokens := by
  induction tokens generalizing depth with
  | nil => rfl
  | cons token rest ih =>
      have hkind : (token.move d).kind = token.kind := rfl
      rw [map_cons]
      by_cases hleft : token.kind = .leftParen
      · rw [moreFollows_leftParen (hkind.trans hleft), moreFollows_leftParen hleft, ih]
      by_cases hright : token.kind = .rightParen
      · rw [moreFollows_rightParen (hkind.trans hright), moreFollows_rightParen hright, ih]
        cases rest <;> rfl
      by_cases hend : token.kind = .endOfInput
      · rw [moreFollows, moreFollows, hkind, hend]
      rw [moreFollows_cons (hkind ▸ hleft) (hkind ▸ hright) (hkind ▸ hend),
        moreFollows_cons hleft hright hend, ih]

section Patterns

variable {nested nested' : Parser (Option Pattern)}

theorem parenPattern_moves (h : Moves d past beyond (Option.map (Pattern.move d)) nested nested')
    (head : Token) :
    Moves d past beyond (Pattern.move d) (parenPattern nested head)
      (parenPattern nested' (head.move d)) := by
  refine .bind advance_moves fun _ => .bind advance_moves fun _ => ?_
  unfold parenPatternAfter
  rw [show (head.move d).value = head.value from rfl]
  cases Wrapper.ofLabel? head.value with
  | some kind =>
      refine .bind (unlessClosed_moves h) fun inner => closeNode_moves _ fun _ => ?_
      rw [Pattern.move_wrapper]
      cases inner <;> rfl
  | none => exact closeNode_moves _ fun _ => rfl

theorem wordPattern_moves (h : Moves d past beyond (Option.map (Pattern.move d)) nested nested')
    (token : Token) :
    Moves d past beyond (Pattern.move d) (wordPattern nested token)
      (wordPattern nested' (token.move d)) := by
  refine .bind advance_moves fun _ => ?_
  unfold wordPatternAfter
  rw [show (token.move d).value = token.value from rfl]
  cases Wrapper.ofLabel? token.value with
  | some kind =>
      refine .bind (unlessClosed_moves h) fun inner => node_moves fun _ => ?_
      rw [Pattern.move_wrapper]
      cases inner <;> rfl
  | none =>
      refine node_moves fun _ => ?_
      split <;> rfl

theorem literalPattern_moves :
    Moves d past beyond (Option.map (Pattern.move d)) (literalPattern token)
      (literalPattern (token.move d)) :=
  moves_ite (.bind literal_moves fun _ => node_moves fun _ => rfl) (pure_moves rfl)

theorem peek_bind_moves {next next'} (hopen : ∀ s : State, s.current.kind = .leftParen →
      next' (s.current.move d) (s.move d past beyond) = (next s.current s).move d f past beyond)
    (hother : ∀ token, token.kind ≠ .leftParen →
      Moves d past beyond f (next token) (next' (token.move d))) :
    Moves d past beyond f (peek >>= next) (peek >>= next') := by
  intro s
  rw [peek_bind_run, peek_bind_run, State.current_move]
  by_cases h : s.current.kind = .leftParen
  · exact hopen s h
  · exact hother _ h s

theorem patternWithin_moves :
    Moves d past beyond (Option.map (Pattern.move d)) (patternWithin levels)
      (patternWithin levels) := by
  induction levels with
  | zero => exact pure_moves rfl
  | succ levels ih =>
      refine peek_bind_moves (fun s hopen => ?_) ?_
      · -- A token stands here, so the second one is not behind the end of input.
        have hsecond : (s.move d past beyond).second = s.second.move d :=
          State.second_move (State.ne_nil_of_current (by simp [hopen]))
        have hkind : (s.current.move d).kind = .leftParen := hopen
        simp only [hopen, hkind, ask_bind_run, hsecond, moreFollows_unread]
        have hfollows : moreFollows 0 (s.move d past beyond).ahead = moreFollows 0 s.ahead :=
          moreFollows_move 0 s.ahead
        have hhead : isPatternHead (s.second.move d) = isPatternHead s.second := rfl
        rw [hfollows, hhead]
        have hpattern : Moves d past beyond (Option.map (Pattern.move d))
            (do pure (some (← parenPattern (patternWithin levels) s.second)))
            (do pure (some (← parenPattern (patternWithin levels) (s.second.move d)))) :=
          .bind (parenPattern_moves ih _) fun _ => pure_moves rfl
        split
        · exact hpattern s
        · rfl
      · rintro ⟨kind, value, raw, location⟩ hother
        cases kind with
        | leftParen => exact absurd rfl hother
        | keyword => exact .bind (wordPattern_moves ih _) fun _ => pure_moves rfl
        | identifier => exact .bind advance_moves fun _ => node_moves fun _ => rfl
        | _ => exact literalPattern_moves _

theorem pattern_moves : Moves d past beyond (Option.map (Pattern.move d)) pattern pattern := by
  intro s
  unfold pattern
  rw [s.length_move]
  exact patternWithin_moves _ s

end Patterns

/-! ## Expressions -/

theorem missing_moves :
    Moves d past beyond (move d) (missing location) (missing (location.move d)) :=
  .bind (infoAt_moves _) fun _ => pure_moves rfl

theorem touches_move (dot word : Token) : ((dot.move d).kind = .dot &&
        (dot.move d).location.offset = (last.move d).location.offset + (last.move d).raw.length &&
        (word.move d).kind.isName &&
        (word.move d).location.offset = (dot.move d).location.offset + 1) =
      (dot.kind = .dot && dot.location.offset = last.location.offset + last.raw.length &&
        word.kind.isName && word.location.offset = dot.location.offset + 1) := by
  have hfirst : decide (dot.location.offset + d.characters =
        last.location.offset + d.characters + last.raw.length) =
      decide (dot.location.offset = last.location.offset + last.raw.length) :=
    decide_eq_decide.mpr (by omega)
  have hsecond : decide (word.location.offset + d.characters =
        dot.location.offset + d.characters + 1) =
      decide (word.location.offset = dot.location.offset + 1) :=
    decide_eq_decide.mpr (by omega)
  show (decide (dot.kind = .dot) &&
    decide (dot.location.offset + d.characters =
      last.location.offset + d.characters + last.raw.length) &&
    word.kind.isName &&
    decide (word.location.offset + d.characters = dot.location.offset + d.characters + 1)) = _
  rw [hfirst, hsecond]

theorem dottedTail_move (name : String) (tokens : List Token) :
    dottedTail (last.move d) name (tokens.map (Token.move d)) =
      ((dottedTail last name tokens).1.move d, (dottedTail last name tokens).2.1,
        (dottedTail last name tokens).2.2.map (Token.move d)) := by
  fun_induction dottedTail last name tokens with
  | case1 last name dot word rest h ih =>
      rw [map_cons, map_cons, dottedTail, touches_move, if_pos h]
      exact ih
  | case2 last name dot word rest h => rw [map_cons, map_cons, dottedTail, touches_move, if_neg h]
  | case3 last name tokens h =>
      rcases tokens with _ | ⟨dot, _ | ⟨word, rest⟩⟩
      · rfl
      · rfl
      · exact absurd rfl (h dot word rest)

theorem dottedName_moves : Moves d past beyond id dottedName dottedName :=
  fun s => by
    have htail := dottedTail_move (d := d) s.current s.current.value s.advance.ahead
    have hahead : (s.advance.move d past beyond).ahead = s.advance.ahead.map (Token.move d) := rfl
    have hvalue : (s.current.move d).value = s.current.value := rfl
    simp only [dottedName_run, s.current_move, s.advance_move, hahead, hvalue, htail]
    rfl

theorem skipBrackets_move (level : Nat) (tokens : List Token) :
    skipBrackets (previous.move d) level (tokens.map (Token.move d)) =
      ((skipBrackets previous level tokens).1.move d,
        (skipBrackets previous level tokens).2.map (Token.move d)) := by
  induction tokens generalizing previous level with
  | nil => rfl
  | cons token rest ih =>
      have hkind : (token.move d).kind = token.kind := rfl
      rw [map_cons, skipBrackets, skipBrackets, hkind]
      cases token.kind with
      | rightParen | rightBrace =>
          dsimp only
          split
          · rfl
          · exact ih token _
      | endOfInput => rfl
      | _ => exact ih token _

theorem skipNested_moves : Moves d past beyond (move d) skipNested skipNested :=
  .bind peek_moves fun _ => .bind (report_moves _ _ _) fun _ =>
    .bind (change_moves fun s => by
      have hskip : skipBrackets (s.move d past beyond).previous 0
        (s.move d past beyond).ahead = _ :=
        skipBrackets_move _ 0 s.ahead
      simp only [passOver_eq, hskip]
      rfl) fun _ => missing_moves _

theorem interrupt_moves (before : State) :
    Moves d past beyond f (interrupt before) (interrupt (before.move d past beyond)) :=
  fun _ => rfl

theorem nameExpr_moves : Moves d past beyond (move d) nameExpr nameExpr :=
  .bind peek_moves fun _ => .bind dottedName_moves fun _ => node_moves fun _ => rfl

theorem literalExpr_moves : Moves d past beyond (move d) literalExpr literalExpr := by
  refine .bind peek_moves fun _ => .bind (ask_moves (f := id) fun s => ?_) fun _ => moves_ite
    (.bind advance_moves fun _ => .bind dottedName_moves fun _ => node_moves fun _ => rfl)
    (moves_ite (.bind literal_moves fun _ => pure_moves rfl)
      (.bind advance_moves fun _ => .bind (report_moves _ _ _) fun _ => missing_moves _))
  rw [s.sees_move]
  cases hdot : s.sees .dot with
  | false => rfl
  | true => rw [State.second_move (State.ne_nil_of_sees hdot (by decide))]; rfl

theorem armPattern?_moves :
    Moves d past beyond (Option.map (Pattern.move d)) armPattern? armPattern? := by
  intro s
  by_cases hahead : s.ahead = []
  · -- At the end of input it does not matter what the second token is.
    rw [armPattern?_of_nil hahead, armPattern?_of_nil (by simp [State.move, hahead])]
    rfl
  · have hkind : (s.move d past beyond).second.kind = s.second.kind := by
      rw [State.second_move hahead]
      rfl
    rw [armPattern?, ask_bind_run, ask_bind_run, s.sees_move, hkind]
    split
    · rfl
    · exact pattern_moves s

theorem orAbsent_moves (found : Option Pattern) :
    Moves d past beyond (Pattern.move d) (orAbsent start found)
      (orAbsent (start.move d) (found.map (Pattern.move d))) := by
  cases found with
  | some found => exact pure_moves rfl
  | none => exact .bind (infoAt_moves _) fun _ => pure_moves rfl

section Expressions

variable {nested nested' : Parser Expr} (h : Moves d past beyond (move d) nested nested')

include h

theorem body_moves : Moves d past beyond (List.map (move d)) (body nested) (body nested') :=
  repeatWhile_moves State.inBody_move h

theorem letBinding_moves :
    Moves d past beyond (Named.move d) (letBinding nested) (letBinding nested') :=
  .bind advance_moves fun _ => .bind (expectName_moves _) fun _ => .bind h fun _ =>
    closeNode_moves _ fun _ => rfl

theorem matchArm_moves : Moves d past beyond (Arm.move d) (matchArm nested) (matchArm nested') :=
  .bind peek_moves fun _ => .bind armPattern?_moves fun found => .bind (orAbsent_moves _ found)
    fun _ => .bind (unlessClosed_moves h) fun body => node_moves fun _ => by cases body <;> rfl

theorem parenField_moves :
    Moves d past beyond (Option.map (Named.move d)) (parenField nested) (parenField nested') :=
  .bind peek_moves fun _ => .bind (expect_moves _ _) fun _ => moves_ite
    (.bind (expectName_moves _) fun _ => .bind h fun _ => closeNode_moves _ fun _ => rfl)
    (.bind advance_moves fun _ => pure_moves rfl)

theorem braceField_moves :
    Moves d past beyond (Named.move d) (braceField nested) (braceField nested') :=
  .bind peek_moves fun _ => .bind (expectName_moves _) fun _ => .bind (expect_moves _ _) fun _ =>
    .bind h fun _ => node_moves fun _ => rfl

theorem braceTuple_moves : Moves d past beyond (move d) (braceTuple nested) (braceTuple nested') :=
  .bind advance_moves fun _ => .bind (separated_moves (braceField_moves h)) fun _ =>
    .bind (expect_moves _ _) fun _ => node_moves fun _ => by simp [move, moveNamed_eq]

theorem callee_moves : Moves d past beyond id (callee nested) (callee nested') :=
  .bind peek_moves fun _ => moves_ite dottedName_moves
    (.bind (reportHere_moves _) fun _ => .bind (unlessClosed_moves h) fun _ => pure_moves rfl)

theorem callExpr_moves (start : Location) :
    Moves d past beyond (move d) (callExpr nested start) (callExpr nested' (start.move d)) :=
  .bind (callee_moves h) fun _ => .bind (body_moves h) fun _ => closeNode_moves _ fun _ => by
    simp [move, moveList_eq]

theorem specialForm?_moves {form} (hform : specialForm? keyword = some form) (start : Location) :
    Moves d past beyond (move d) (form nested start) (form nested' (start.move d)) := by
  unfold specialForm? at hform
  split at hform <;> cases hform
  · exact .bind (parenthesized_moves _ _ (repeatWhile_moves (·.sees_move _) (letBinding_moves h)))
      fun _ => .bind (body_moves h) fun _ => closeNode_moves _ fun _ => by
        simp [move, moveNamed_eq, moveList_eq]
  · exact .bind (body_moves h) fun _ => closeNode_moves _ fun _ => by
      simp [move, moveList_eq]
  · exact .bind h fun _ => .bind h fun _ => .bind (unlessClosed_moves h) fun _ =>
      closeNode_moves _ fun _ => (move_conditional d _ _ _ _).symm
  · exact .bind h fun _ => .bind (repeatWhile_moves State.inBody_move (matchArm_moves h)) fun _ =>
      closeNode_moves _ fun _ => by simp [move, moveArms_eq]
  · exact .bind (body_moves h) fun _ => closeNode_moves _ fun _ => by
      simp [move, moveList_eq]
  · exact .bind (repeatWhile_moves State.inBody_move (parenField_moves h)) fun _ =>
      closeNode_moves _ fun _ => by
        simp [move, moveNamed_eq, filterMap_map, map_filterMap]

theorem parenExprAfter_moves (before : State) (start : Location) (head : Token) :
    Moves d past beyond (move d) (parenExprAfter nested before start head)
      (parenExprAfter nested' (before.move d past beyond) (start.move d) (head.move d)) := by
  obtain ⟨kind, value, raw, location⟩ := head
  cases kind with
  | rightParen =>
      exact .bind advance_moves fun _ => .bind (report_moves _ _ _) fun _ => missing_moves _
  | keyword =>
      refine moves_ite (.bind (report_moves _ _ _) fun _ => interrupt_moves before) ?_
      rw [show (Token.move d ⟨.keyword, value, raw, location⟩).value = value from rfl]
      cases hform : specialForm? value with
      | some form => exact .bind advance_moves fun _ => specialForm?_moves h hform start
      | none => exact callExpr_moves h start
  | _ => exact callExpr_moves h start

theorem parenExpr_moves : Moves d past beyond (move d) (parenExpr nested) (parenExpr nested') :=
  .bind (ask_moves (f := (State.move d · past beyond)) fun _ => rfl) fun before =>
    .bind advance_moves fun first => .bind peek_moves fun head =>
      parenExprAfter_moves h before first.location head

theorem compoundExpr_moves :
    Moves d past beyond (move d) (compoundExpr nested) (compoundExpr nested') :=
  .bind (sees_moves _) fun _ => moves_ite (parenExpr_moves h) (braceTuple_moves h)

theorem exprWith_moves : Moves d past beyond (move d) (exprWith nested) (exprWith nested') := by
  refine .bind peek_moves ?_
  rintro ⟨kind, value, raw, location⟩
  cases kind with
  | leftParen | leftBrace => exact h
  | identifier | keyword => exact nameExpr_moves
  | rightParen | endOfInput => exact .bind (reportHere_moves _) fun _ => missing_moves _
  | _ => exact literalExpr_moves

end Expressions

theorem exprWithin_moves :
    Moves d past beyond (move d) (exprWithin levels) (exprWithin levels) := by
  induction levels with
  | zero => exact exprWith_moves skipNested_moves
  | succ levels ih => exact exprWith_moves (compoundExpr_moves ih)

theorem expr_moves : Moves d past beyond (move d) expr expr :=
  exprWithin_moves maxNesting

/-! ## Forms -/

def FormResult.move (d : Displacement) (result : FormResult) : FormResult :=
  ⟨result.form.map (Form.move d), result.cut⟩

theorem parameter_moves : Moves d past beyond (Parameter.move d) parameter parameter :=
  .bind advance_moves fun _ => .bind (expectName_moves _) fun _ => .bind typeSpec_moves fun _ =>
    .bind (close_moves _) fun _ => .bind (spanFrom_moves _) fun _ => pure_moves rfl

theorem functionBodyUpTo_moves (bound : Nat) :
    Moves d past beyond (Prod.map (List.map (move d)) id) (functionBodyUpTo expr bound)
      (functionBodyUpTo expr bound) := by
  induction bound with
  | zero => exact pure_moves rfl
  | succ bound ih =>
      refine .bind inBody_moves fun _ => moves_ite
        (.bind (unlessInterrupted_moves expr_moves) fun found => ?_) (pure_moves rfl)
      cases found with
      | some first => exact .bind ih fun _ => pure_moves rfl
      | none => exact pure_moves rfl

theorem functionBody_moves :
    Moves d past beyond (Prod.map (List.map (move d)) id) (functionBody expr)
      (functionBody expr) := by
  intro s
  unfold functionBody
  rw [s.length_move]
  exact functionBodyUpTo_moves _ s

theorem function_moves (visibility : Visibility) (start : Location) :
    Moves d past beyond (FormResult.move d) (function expr visibility start)
      (function expr visibility (start.move d)) :=
  .bind (expect_moves _ _) fun _ => .bind (expectName_moves _) fun _ =>
    .bind (repeatWhile_moves (·.sees_move _) parameter_moves) fun _ =>
      .bind (close_moves _) fun _ => .bind functionBody_moves fun _ =>
        .bind (moves_ite (pure_moves rfl) (close_moves _)) fun _ =>
          node_moves fun _ => rfl

theorem traitFunction_moves :
    Moves d past beyond (TraitFunction.move d) traitFunction traitFunction :=
  .bind advance_moves fun _ => .bind (expectName_moves _) fun _ =>
    .bind (parenthesized_moves _ _ (repeatWhile_moves State.inBody_move typeSpec_moves)) fun _ =>
      .bind typeSpec_moves fun _ => .bind (close_moves _) fun _ => .bind (spanFrom_moves _) fun _ =>
        pure_moves rfl

theorem whole_moves {parser parser'} (h : Moves d past beyond (Form.move d) parser parser') :
    Moves d past beyond (FormResult.move d) (whole parser) (whole parser') :=
  .bind (unlessInterrupted_moves h) fun found => pure_moves (by cases found <;> rfl)

theorem formAfter?_moves {rest} (h : formAfter? expr keyword = some rest)
    (start : Location) : Moves d past beyond (FormResult.move d) (rest start)
      (rest (start.move d)) := by
  unfold formAfter? at h
  split at h <;> cases h
  · exact whole_moves (.bind (expectName_moves _) fun _ => .bind expr_moves fun _ =>
      closeNode_moves _ fun _ => rfl)
  · exact function_moves _ start
  · exact function_moves _ start
  · exact function_moves _ start
  · exact whole_moves (.bind (expectName_moves _) fun _ => .bind typeSpec_moves fun _ =>
      .bind typeSpec_moves fun _ => closeNode_moves _ fun _ => rfl)
  · exact whole_moves (.bind (expectName_moves _) fun _ => .bind typeSpec_moves fun _ =>
      .bind expr_moves fun _ => closeNode_moves _ fun _ => rfl)
  · exact whole_moves (.bind (expectName_moves _) fun _ => .bind typeSpec_moves fun _ =>
      closeNode_moves _ fun _ => rfl)
  · exact whole_moves (.bind (expectName_moves _) fun _ => .bind (unlessClosed_moves expr_moves)
      fun _ => closeNode_moves _ fun _ => rfl)
  · exact whole_moves (.bind (expectName_moves _) fun _ => .bind (parenthesized_moves _ _
      (repeatWhile_moves (·.sees_move _) traitFunction_moves)) fun _ => closeNode_moves _ fun _ =>
        rfl)
  · exact whole_moves (.bind (expectName_moves _) fun _ => .bind expr_moves fun _ =>
      closeNode_moves _ fun _ => rfl)
  · exact whole_moves (.bind expr_moves fun _ => closeNode_moves _ fun _ => rfl)

theorem form_moves : Moves d past beyond (FormResult.move d) (form expr) (form expr) := by
  refine .bind advance_moves fun first => moves_ite
    (.bind (report_moves _ _ _) fun _ => pure_moves rfl) (.bind peek_moves fun head => ?_)
  have hhead : formAt? expr (head.move d) = formAt? expr head := rfl
  rw [hhead]
  cases hrest : formAt? expr head with
  | some rest =>
      have hafter : formAfter? expr head.value = some rest := by
        unfold formAt? at hrest
        split at hrest
        · exact hrest
        · cases hrest
      exact .bind advance_moves fun _ => formAfter?_moves hafter first.location
  | none => exact .bind (report_moves _ _ _) fun _ => pure_moves rfl

theorem startsDefinition_move :
    startsDefinition (tokens.map (Token.move d)) = startsDefinition tokens := by
  rcases tokens with _ | ⟨first, _ | ⟨second, rest⟩⟩ <;> rfl

theorem skipToForm_move :
    skipToForm (line + d.lines) (previous.move d) (tokens.map (Token.move d)) =
      ((skipToForm line previous tokens).1.move d,
        (skipToForm line previous tokens).2.map (Token.move d)) := by
  induction tokens generalizing previous with
  | nil => rfl
  | cons token rest ih =>
      have hlater : (line + d.lines < (token.move d).location.line) ↔ line <
        token.location.line := by
        show line + d.lines < token.location.line + d.lines ↔ _
        omega
      rw [map_cons, skipToForm, skipToForm, ← map_cons, startsDefinition_move]
      simp only [hlater]
      show (if token.kind = .endOfInput || startsDefinition (token :: rest) ||
        (line < token.location.line && token.location.column = 1) then _ else _) = _
      split
      · rfl
      · exact ih token

theorem resume_move (s : State) :
    resume (line + d.lines) (s.move d past beyond) = (resume line s).move d past beyond := by
  cases hahead : s.ahead with
  | nil => rw [resume_of_nil _ hahead, resume_of_nil _ (by simp [State.move, hahead])]
  | cons token rest =>
      have hmoved : (s.move d past beyond).ahead = token.move d :: rest.map (Token.move d) := by
        simp [State.move, hahead]
      rw [resume_of_cons _ hahead, resume_of_cons _ hmoved, ← map_cons, startsDefinition_move]
      simp only [skipToForm_move]
      split <;> rfl

theorem formThenResume_moves :
    Moves d past beyond (Option.map (Form.move d)) (formThenResume expr) (formThenResume expr) := by
  have hcount : Moves d past beyond (past.length + ·) (ask (·.errors.length))
    (ask (·.errors.length)) :=
    ask_moves fun s => by simp [State.move]
  refine .bind peek_moves fun first => .bind hcount fun before => .bind form_moves fun result =>
    .bind hcount fun after => .bind (f := id) ?_ fun _ => pure_moves rfl
  have hmore : decide (past.length + before < past.length + after) = decide (before < after) :=
    decide_eq_decide.mpr Nat.add_lt_add_iff_left
  rw [hmore]
  exact moves_ite (change_moves fun s => resume_move first.location.line s) (pure_moves rfl)

theorem forms_moves :
    Moves d past beyond (List.map (Option.map (Form.move d))) (forms expr) (forms expr) :=
  repeatWhile_moves (fun s => by rw [s.atEnd_move]) formThenResume_moves

theorem contract_moves :
    Moves d past beyond (fun contract => ⟨contract.info.move d, contract.body.map (Form.move d)⟩)
      (contract expr) (contract expr) :=
  .bind peek_moves fun _ => .bind forms_moves fun _ => node_moves fun _ => by
    simp [filterMap_map, map_filterMap]

end Parser

end ContractAudit
