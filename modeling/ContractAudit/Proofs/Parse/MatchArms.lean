import ContractAudit.Proofs.Parse.Append
import ContractAudit.Proofs.Parse.Phrase
import ContractAudit.Proofs.Parse.Reads.Patterns

/-!
# Matches as they are written

A match is a subject and arms, each of them a pattern and a body, and at the end there may be an
expression without a pattern. It is read into just these arms, with three restrictions. The parser
takes parentheses for those of a pattern only if something other than a closing parenthesis stands
behind them, so that a pattern in parentheses holds none that is in parentheses too. A pattern is
looked for in front of an expression that has none, so that a dotted name there is taken apart: its
first word is read as a pattern. And a literal in a pattern is one token, so that the name of a
contract behind a dot is none.
-/

namespace ContractAudit

open Parse List State ContractAudit.Expr Lexeme Wrapper

variable {trees : List Expr} {args more : List Token} {α : Type} {item : Parser α}
  {gives : α → Prop} {name : String}

/-! ## How an expression opens -/

theorem SpellName.isName_head {lexemes} (h : SpellName name lexemes) :
    ∀ lexeme ∈ lexemes.head?, lexeme.kind.isName = true := by
  induction h with
  | word name hname =>
      rintro _ ⟨⟩
      exact hname
  | dotted first last lexemes hfirst _ ih =>
      obtain ⟨head, tail, rfl⟩ := exists_cons_of_ne_nil hfirst.ne_nil
      exact ih

theorem SpellExpr.shape {expr : Expr} {first rest} (h : SpellExpr expr (first :: rest)) :
    (∃ inner, first :: rest = parens inner ∧ Balanced inner) ∨
      first.kind ≠ .leftParen ∧ (rest = [] ∨ first.kind.isName = true ∨ first.kind = .dot ∨
        first.kind = .leftBrace) := by
  cases hcompound : expr.isCompound with
  | true =>
      obtain ⟨inner, hinner, heq | heq⟩ := h.bracketed.2 hcompound
      · exact .inl ⟨inner, heq, hinner⟩
      · cases heq
        exact .inr ⟨by simp [leftBrace], .inr (.inr (.inr rfl))⟩
  | false =>
      right
      generalize heq : first :: rest = lexemes at h
      cases h with
      | literal _ _ _ hvalue =>
          cases heq
          exact ⟨by cases hvalue <;> simp, .inl rfl⟩
      | localPrincipal _ _ _ _ =>
          cases heq
          exact ⟨by simp [dot], .inr (.inr (.inl rfl))⟩
      | identifier _ _ _ hname _ =>
          have hfirst := hname.isName_head first (by rw [← heq]; rfl)
          refine ⟨?_, .inr (.inl hfirst)⟩
          rintro hkind
          simp [hkind, TokenKind.isName] at hfirst
      | _ => cases hcompound

namespace Parser

variable {levels : Nat} {tokens words body rest : List Token} {parens : Bool} {pattern : Pattern}
  {s : State} {tree : Expr} {opening closing first : Token} {form : Form} (info : NodeInfo)

theorem Closed.apart_append (h : Closed rest) (hapart : Apart tokens body) :
    Apart tokens (body ++ rest) := by
  obtain ⟨closing, more, rfl, hkind⟩ := h
  refine hapart.append ?_
  rintro _ ⟨⟩
  exact .inr hkind

theorem Closed.apart (h : Closed rest) : Apart tokens rest := by
  obtain ⟨closing, more, rfl, hkind⟩ := h
  exact apart_of_ne_dot (by simp [hkind])

theorem Phrase.continued (h : Phrase (exprWithin levels) tokens tree) (hscanned : Scanned tokens) :
    Continued tokens := by
  obtain ⟨first, more, rfl, hkind⟩ := h.head hscanned
  exact ⟨first, more, rfl, hkind, (hscanned first (by simp)).2.2⟩

/-! ## Patterns -/

/-- The tokens of a pattern as it is written. Parentheses may stand around one part of it; a pattern
that itself is in parentheses has no others. -/
inductive PatternWords : Bool → List Token → Pattern → Prop where
  | name {parens : Bool} {token : Token} (info : NodeInfo) :
      token.kind.isName = true → ofLabel? token.value = none → token.value ≠ "none" →
      PatternWords parens [token] (.identifier info token.value)
  | none {parens : Bool} {token : Token} (info : NodeInfo) :
      token.kind = .keyword → token.value = "none" → PatternWords parens [token] (.none info)
  | literal {parens : Bool} {token : Token} {value : Literal} (info place : NodeInfo) :
      token.kind.isLiteral = true → literalValue token = pure value →
      PatternWords parens [token] (.literal info place value)
  | bare {parens : Bool} {token : Token} {kind : Wrapper} {words : List Token} {inner : Pattern}
      (info : NodeInfo) :
      token.kind = .keyword → ofLabel? token.value = some kind →
      PatternWords parens words inner →
      PatternWords parens (token :: words) (.wrapper info kind (some inner))
  | parens {opening token closing : Token} {kind : Wrapper} {words : List Token} {inner : Pattern}
      (info : NodeInfo) :
      opening.kind = .leftParen → token.kind = .keyword →
      ofLabel? token.value = some kind → PatternWords false words inner →
      closing.kind = .rightParen →
      PatternWords true (opening :: token :: (words ++ [closing])) (.wrapper info kind (some inner))
  | parensNone {opening token closing : Token} (info : NodeInfo) :
      opening.kind = .leftParen → token.kind = .keyword → token.value = "none" →
      closing.kind = .rightParen → PatternWords true [opening, token, closing] (.none info)

theorem PatternWords.continued (h : PatternWords parens words pattern) : Continued words := by
  have hkinds {kind : TokenKind} (hkind : kind.isName = true ∨ kind.isLiteral = true) :
      kind ≠ .rightParen ∧ kind ≠ .endOfInput := by
    rcases hkind with hkind | hkind <;> refine ⟨?_, ?_⟩ <;> rintro rfl <;> cases hkind
  cases h with
  | name _ hname => exact ⟨_, _, rfl, hkinds (.inl hname)⟩
  | none _ hkind => exact ⟨_, _, rfl, by simp [hkind]⟩
  | literal _ _ hliteral => exact ⟨_, _, rfl, hkinds (.inr hliteral)⟩
  | bare _ hkind => exact ⟨_, _, rfl, by simp [hkind]⟩
  | parens _ hopen | parensNone _ hopen => exact ⟨_, _, rfl, by simp [hopen]⟩

theorem PatternWords.second (h : PatternWords parens (first :: words) pattern)
    (hrest : Continued rest) : first.kind = .leftParen ∨ Continued (words ++ rest) := by
  cases h with
  | name | none | literal => exact .inr hrest
  | bare _ _ _ hinner => exact .inr (hinner.continued.append rest)
  | parens _ hopen | parensNone _ hopen => exact .inl hopen

theorem PatternWords.ne_paren (h : PatternWords parens words pattern) (hparens : parens = false) :
    ∀ token ∈ words, token.kind ≠ .leftParen ∧ token.kind ≠ .rightParen := by
  have hkinds {kind : TokenKind} (hkind : kind.isName = true ∨ kind.isLiteral = true) :
      kind ≠ .leftParen ∧ kind ≠ .rightParen := by
    rcases hkind with hkind | hkind <;> refine ⟨?_, ?_⟩ <;> rintro rfl <;> cases hkind
  induction h with
  | name _ hname => simpa using hkinds (.inl hname)
  | none _ hkind => simp [hkind]
  | literal _ _ hliteral => simpa using hkinds (.inr hliteral)
  | bare _ hkind _ _ ih => simpa [hkind] using ih hparens
  | parens | parensNone => cases hparens

theorem patternWithin_takes (h : PatternWords parens words pattern)
    (hlevels : words.length ≤ levels) :
    Takes (patternWithin levels) words (fun rest => parens = true → Continued rest)
      (Finds pattern) := by
  induction h generalizing levels with
  | name info hname hlabel hnone =>
      obtain ⟨levels, rfl⟩ := Nat.exists_eq_add_of_le' (show 1 ≤ levels from hlevels)
      exact patternWith_takes_name info hname hlabel hnone
  | none info hkind hvalue =>
      obtain ⟨levels, rfl⟩ := Nat.exists_eq_add_of_le' (show 1 ≤ levels from hlevels)
      exact patternWith_takes_none info hkind hvalue
  | literal info place hkind hvalue =>
      obtain ⟨levels, rfl⟩ := Nat.exists_eq_add_of_le' (show 1 ≤ levels from hlevels)
      exact patternWith_takes_literal info place hkind hvalue
  | bare info hkind hlabel hinner ih =>
      rw [length_cons] at hlevels
      obtain ⟨levels, rfl⟩ : ∃ n, levels = n + 1 := ⟨levels - 1, by omega⟩
      exact patternWith_takes_bare info hkind hlabel
        (takesInner_some (ih (by omega)) hinner.continued)
  | parens info hopen hkind hlabel hinner hclosing ih =>
      rw [length_cons, length_cons, length_append] at hlevels
      obtain ⟨levels, rfl⟩ : ∃ n, levels = n + 1 := ⟨levels - 1, by omega⟩
      have hnested := (ih (show _ ≤ levels by omega)).mono fun rest (_ : Closed rest) hfalse => by
        cases hfalse
      exact (patternWith_takes_parens hopen hkind hclosing info hlabel
        (takesInner_some hnested hinner.continued) (hinner.ne_paren rfl)).mono fun _ hrest =>
          hrest rfl
  | parensNone info hopen hkind hvalue hclosing =>
      obtain ⟨levels, rfl⟩ := Nat.exists_eq_add_of_le' (show 3 ≤ levels from hlevels)
      exact (patternWith_takes_parensNone hopen hkind hclosing info hvalue).mono
        fun _ hrest => hrest rfl

/-! ## Arms -/

/-- The pattern of an arm is read where the body follows. -/
theorem PatternWords.takes (h : PatternWords true words pattern) :
    Takes armPattern? words Continued (Finds pattern) := by
  obtain ⟨first, more, rfl, _⟩ := h.continued
  refine armPattern?_takes (pattern_takes fun levels hlevels => ?_) fun _ => h.second
  have hlength : (first :: more).length ≤ levels + 1 := by simpa using hlevels
  exact (patternWithin_takes h hlength).mono fun _ hrest _ => hrest

theorem Phrase.spells (h : Phrase (exprWithin levels) tokens tree) (hscanned : Scanned tokens) :
    SpellExpr tree (lexemes tokens) := by
  obtain ⟨s, hrun, hend, hclean⟩ := h
  let closing : Token := ⟨.rightParen, String.ofList [')'], ")", .start⟩
  let t : State := { s with ahead := [closing], live := by simp [closing] }
  have hahead := ofTokens_of_scanned hscanned
  have hlexical : closing.Lexical := Scan.punctuation_lexical rfl _ _
  have hends := exprWithin_ends levels t (hahead.symm ▸ hscanned.lexical) hrun hclean hend
    (apart_of_ne_dot (by simp [t, closing]))
  obtain ⟨used, _, _, _, htook, hlike, _⟩ :=
    (exprWithin_follows levels levels fun _ : True => rfl).follow t 0 []
      ⟨trivial, by simp [elsewhere, hahead, hscanned.lexical, t, hlexical], hends, rfl,
        anchored_of_current (.inl (by simp [elsewhere, current_headD, hend, t, closing]))⟩
      fun _ => rfl
  have hused : tokens ++ [closing] = used ++ [closing] := by
    simpa [elsewhere, hahead, hend, t] using htook.ahead
  rw [append_cancel_right hused]
  exact hlike.spelled

theorem armPattern?_of_pattern (h : Parser.pattern s = .done none s) :
    armPattern? s = .done none s := by
  rw [armPattern?, ask_bind_run]
  split
  · rfl
  · exact h

theorem pattern_closed {last : Token} {middle inner}
    (hopen : opening.kind = .leftParen) (hinner : Balanced inner) (hmiddle : lexemes middle = inner)
    (hclosing : closing.kind = .rightParen) (hlast : last.kind = .rightParen)
    (hahead : s.ahead = opening :: (middle ++ closing :: last :: more)) :
    Parser.pattern s = .done none s := by
  have hfollows : moreFollows 0 s.ahead = false := by
    rw [hahead, moreFollows_leftParen hopen, moreFollows_balanced hinner hmiddle,
      moreFollows_rightParen hclosing]
    simp [hlast]
  have hrun : patternWith (patternWithin (s.ahead.length - 1)) s = .done none s := by
    rw [patternWith, peek_bind_run, current_eq hahead, hopen]
    show (ask second >>= _) s = _
    rw [ask_bind_run, ask_bind_run, moreFollows_unread, hfollows, Bool.and_false]
    rfl
  rw [Parser.pattern, show s.ahead.length = s.ahead.length - 1 + 1 by simp [hahead]]
  exact hrun

theorem pattern_of_kind (hkind : first.kind = .dot ∨ first.kind = .leftBrace)
    (hahead : s.ahead = first :: more) : Parser.pattern s = .done none s := by
  have hrun : patternWith (patternWithin more.length) s = .done none s := by
    rw [patternWith, peek_bind_run, current_eq hahead]
    rcases hkind with hkind | hkind <;> simp [hkind, literalPattern, TokenKind.isLiteral]
  rw [Parser.pattern, hahead]
  exact hrun

theorem armPattern?_none (h : Phrase (exprWithin levels) tokens tree) (hscanned : Scanned tokens)
    (hname : ∀ first second more, tokens = first :: second :: more → first.kind.isName = false)
    (hahead : s.ahead = tokens ++ rest) (hclosed : Closed rest) : armPattern? s = .done none s := by
  obtain ⟨last, others, rfl, hlast⟩ := hclosed
  obtain ⟨first, more, rfl, _⟩ := h.continued hscanned
  have hspell := h.spells hscanned
  rcases hspell.shape with ⟨inner, heq, hinner⟩ | ⟨hopen, hshape⟩
  · have heq : lexemes (first :: more) = parens inner ++ [] :=
      heq.trans (append_nil _).symm
    obtain ⟨opening, middle, closing, nothing, htokens, hopening, hclosing, hmiddle, hnothing⟩ :=
      lexemes_eq_bracketed heq
    obtain rfl := map_eq_nil_iff.mp hnothing
    rw [htokens, cons_append, append_assoc] at hahead
    exact armPattern?_of_pattern (pattern_closed hopening hinner hmiddle hclosing hlast hahead)
  · have hopen : first.kind ≠ .leftParen := hopen
    cases more with
    | nil =>
        have hsecond := second_eq hahead
        rw [armPattern?, ask_bind_run, if_pos]
        · rfl
        · simp [sees, current_eq hahead, hsecond, hopen, hlast]
    | cons second more =>
        rcases hshape with hrest | hfirst | hkind
        · cases hrest
        · exact absurd hfirst (Bool.eq_false_iff.mp (hname first second more rfl))
        · exact armPattern?_of_pattern (pattern_of_kind hkind hahead)

theorem matchArm_takes_last (place : NodeInfo) (h : Phrase (exprWithin levels) tokens tree)
    (hname : ∀ first second more, tokens = first :: second :: more → first.kind.isName = false) :
    Takes (matchArm (exprWithin levels)) tokens Closed fun arm =>
      arm.erase = Arm.erase ⟨info, .none place, [tree]⟩ := by
  refine takes_of_scanned fun hscanned => ask_bind_takes_of_forall fun first => ?_
  have hnone : Takes armPattern? [] (fun rest => ∃ more, rest = tokens ++ more ∧ Closed more)
      (· = none) := by
    rintro s _ _ hahead ⟨more, rfl, hclosed⟩
    exact ⟨none, s, armPattern?_none h hscanned hname hahead hclosed, rfl, hahead, rfl⟩
  have habsent : Takes (orAbsent first.location none) [] (fun _ => True)
      fun chosen => chosen.erase = .none .nowhere :=
    fun _ _ _ hahead _ => ⟨_, _, rfl, rfl, hahead, rfl⟩
  refine Takes.bind hnone ?_ fun rest hclosed => ⟨rest, rfl, hclosed⟩
  rintro _ rfl
  refine Takes.bind habsent (fun chosen hchosen => ?_) fun _ _ => trivial
  have hbody := h.takes_expr.mono fun rest (hclosed : Closed rest) => hclosed.apart
  refine (unlessClosed_takes h.continued hbody).bind_nil ?_
  rintro _ ⟨expr, rfl, hexpr⟩
  exact node_takes fun place => by simp [Arm.erase, hchosen, hexpr, Pattern.erase]

/-- The tokens of the arms of a match as they are written: patterns with their bodies and, at the
end, an expression without a pattern. This is no dotted name. -/
inductive ArmWords (levels : Nat) : List Token → List (Arm Expr) → Prop where
  | nil : ArmWords levels [] []
  | last {tokens : List Token} {tree : Expr} (info place : NodeInfo) :
      Phrase (exprWithin levels) tokens tree →
      (∀ first second more, tokens = first :: second :: more → first.kind.isName = false) →
      ArmWords levels tokens [⟨info, .none place, [tree]⟩]
  | cons {words body rest : List Token} {pattern : Pattern} {tree : Expr} {arms : List (Arm Expr)}
      (info : NodeInfo) :
      PatternWords true words pattern → Phrase (exprWithin levels) body tree → Apart body rest →
      ArmWords levels rest arms →
      ArmWords levels (words ++ body ++ rest) (⟨info, pattern, [tree]⟩ :: arms)

theorem ArmWords.takesAll {arms} (h : ArmWords levels tokens arms) :
    TakesAll inBody (matchArm (exprWithin levels)) tokens Closed fun found =>
      found.map Arm.erase = arms.map Arm.erase := by
  induction h with
  | nil => exact takesAll_nil fun _ => Closed.inBody
  | @last tokens tree info place hphrase hname =>
      rw [← append_nil tokens]
      exact .cons (fun hscanned => (hphrase.continued hscanned).starts)
        (matchArm_takes_last info place hphrase hname) (fun _ hclosed => hclosed)
        (takesAll_nil fun _ => Closed.inBody)
  | cons info hpattern hbody hapart _ ih =>
      exact .cons (fun _ => (hpattern.continued.append _).starts)
        (matchArm_takes info hpattern.takes hbody.takes_expr hbody.continued)
        (fun rest hclosed => hclosed.apart_append hapart) ih

/-- The tokens of a match as it is written: its subject and its arms, in parentheses. -/
inductive MatchWords (levels : Nat) : List Token → Expr → Prop where
  | intro {opening keyword closing : Token} {words others : List Token} {subject : Expr}
      {arms : List (Arm Expr)} (info : NodeInfo) :
      opening.kind = .leftParen → keyword.kind = .keyword → keyword.value = "match" →
      Phrase (exprWithin levels) words subject → Apart words others →
      ArmWords levels others arms → closing.kind = .rightParen →
      MatchWords levels (opening :: keyword :: (words ++ (others ++ [closing])))
        (.matchOn info subject arms)

theorem MatchWords.takes (h : MatchWords levels tokens tree) :
    Takes (exprWithin (levels + 1)) tokens (fun _ => True) fun expr => expr.erase = tree.erase := by
  obtain @⟨opening, keyword, closing, words, others, subject, arms, info, hopen, hkind, hvalue,
    hsubject, hapart, harms, hclosing⟩ := h
  have hclosed (rest : List Token) : Closed ([closing] ++ rest) := ⟨closing, rest, rfl, hclosing⟩
  have hform : Takes (matchExpr (exprWithin levels) opening.location)
      (words ++ (others ++ [closing])) (fun _ => True) fun expr =>
        expr.erase = (matchOn info subject arms).erase := by
    refine hsubject.takes_expr.bind (fun found hfound => ?_) fun rest _ => ?_
    · refine harms.takesAll.repeatWhile.bind
        (fun foundArms hsame => closeNode_takes hclosing fun place => ?_) fun rest _ => hclosed rest
      simp [erase, eraseArms_eq, hfound, hsame]
    · rw [append_assoc]
      exact (hclosed rest).apart_append hapart
  exact .special hopen hkind (by rw [hvalue]; rfl) hform

theorem MatchWords.apart (h : MatchWords levels tokens tree) : Apart tokens rest := by
  intro last hlast hname
  obtain @⟨opening, keyword, closing, words, others, _, _, _, _, _, _, _, _, _, hclosing⟩ := h
  cases hlast
  simp [hclosing, TokenKind.isName] at hname

theorem MatchWords.opens (h : MatchWords levels tokens tree) :
    ∀ token ∈ (tokens ++ rest).head?, token.kind = .leftParen := by
  obtain ⟨_, hopen⟩ := h
  rintro _ ⟨⟩
  exact hopen

/-! ## Functions -/

theorem Takes.phrase {parser}
    (h : Takes parser tokens (fun _ => True) gives) (hscanned : Scanned tokens) :
    ∃ value, Phrase parser tokens value ∧ gives value := by
  have hahead : (ofTokens tokens).ahead = tokens ++ [] := by
    rw [ofTokens_of_scanned hscanned, append_nil]
  obtain ⟨value, s, hrun, hgives, hend, herrors⟩ := h hscanned hahead trivial
  exact ⟨value, ⟨s, hrun, hend, herrors⟩, hgives⟩

theorem Exprs.append {others more}
    (h : Exprs levels args trees) (hothers : Exprs levels others more)
    (hopen : ∀ token ∈ others.head?, token.kind = .leftParen) :
    Exprs levels (args ++ others) (trees ++ more) := by
  induction h with
  | nil => exact hothers
  | cons hphrase hapart _ ih =>
      rw [append_assoc]
      exact .cons hphrase (hapart.append fun token htoken => .inl (hopen token htoken)) ih

theorem Exprs.takesAll (h : Exprs levels args trees) :
    TakesAll inBody (exprWithin levels) args Closed fun found =>
      found.map erase = trees.map erase := by
  induction h with
  | nil => exact takesAll_nil fun _ => Closed.inBody
  | cons hphrase hapart _ ih =>
      exact .cons (fun hscanned => (hphrase.continued hscanned).starts) hphrase.takes_expr
        (fun rest hclosed => hclosed.apart_append hapart) ih

/-- The tokens of a function as they are written, with those of an expression among the expressions
of its body. -/
inductive InFunction (tokens : List Token) (tree : Expr) : List Token → Form → Prop where
  | intro {opening keyword closing : Token} {heading before after : List Token}
      {visibility : Visibility} {name : String} {params : List Parameter}
      {firsts lasts : List Expr} (info : NodeInfo) :
      opening.kind = .leftParen → keyword.kind = .keyword →
      keyword.value = visibility.keyword → Phrase signature heading (name, params) →
      Exprs maxNesting before firsts → Exprs maxNesting after lasts →
      closing.kind = .rightParen →
      InFunction tokens tree
        (opening :: keyword :: (heading ++ (before ++ (tokens ++ after) ++ [closing])))
        (.function ⟨info, name, visibility, params, firsts ++ tree :: lasts⟩)

theorem function_takes {heading visibility params}
    (hheading : Phrase signature heading (name, params)) (hargs : Exprs maxNesting args trees)
    (hclosing : closing.kind = .rightParen) (start : Location) :
    Takes (wholeFunction expr visibility start) (heading ++ (args ++ [closing]))
      (fun _ => True) fun found =>
        found.erase = (Form.function ⟨info, name, visibility, params, trees⟩).erase := by
  intro s rest hscanned hahead _
  rw [append_assoc] at hahead
  rw [scanned_append] at hscanned
  obtain ⟨_, s₁, hrun, ⟨nodes, rfl⟩, hahead₁, herrors₁⟩ :=
    signature_portable.takes hheading hscanned.1 hahead trivial
  have hrest (what : String) (params' : List Parameter)
      (hparams : params'.map Parameter.erase = params.map Parameter.erase) : Takes (do
        let exprs ← Parser.body expr
        close what
        pure (Form.function ⟨← infoFrom start, name, visibility, params', exprs⟩))
      (args ++ [closing]) (fun _ => True) fun found =>
        found.erase = (Form.function ⟨info, name, visibility, params, trees⟩).erase := by
    refine hargs.takesAll.repeatWhile.bind (fun exprs hexprs =>
      closeNode_takes hclosing fun place => ?_)
      fun rest _ => ⟨closing, rest, rfl, hclosing⟩
    simp [Form.erase, eraseList_eq, hexprs, hparams]
  have hparams : (params.map (Parameter.move (.later nodes))).map Parameter.erase =
      params.map Parameter.erase := by
    simp [Function.comp_def, Parameter.erase_move]
  rw [wholeFunction, signature_bind_run hrun, ← herrors₁]
  exact hrest _ _ hparams hscanned.2 hahead₁ trivial

theorem definition_takes {keyword : Token} {gives : Form → Prop}
    (hopen : opening.kind = .leftParen) (hkind : keyword.kind = .keyword)
    (h : Takes (definitionAfter expr keyword.value opening.location) tokens (fun _ => True)
      gives) : Takes (definition expr) (opening :: keyword :: tokens) (fun _ => True) gives := by
  refine advance_bind_takes (peek_bind_takes ?_)
  rw [if_pos ⟨hopen, hkind⟩]
  exact advance_bind_takes h

theorem InFunction.ne_nil (h : InFunction tokens tree words form) : words ≠ [] := by
  cases h
  simp

/-- The function that holds a match is read as it is written. -/
theorem InFunction.takes (h : InFunction tokens tree words form)
    (hmatch : MatchWords levels tokens tree) (hlevels : levels + 1 = maxNesting) :
    Takes (definition expr) words (fun _ => True) fun found => found.erase = form.erase := by
  refine takes_of_scanned fun hscanned => ?_
  obtain @⟨opening, keyword, closing, heading, before, after, visibility, name, params, firsts,
    lasts, info, hopen, hkind, hvalue, hheading, hbefore, hafter, hclosing⟩ := h
  have hscannedMatch : Scanned tokens := fun token htoken => hscanned token (by simp [htoken])
  obtain ⟨found, hphrase, hfound⟩ := hmatch.takes.phrase hscannedMatch
  rw [hlevels] at hphrase
  have hargs : Exprs maxNesting (before ++ (tokens ++ after)) (firsts ++ found :: lasts) :=
    hbefore.append (.cons hphrase hmatch.apart hafter) hmatch.opens
  have hfunction : Takes (definitionAfter expr keyword.value opening.location)
      (heading ++ (before ++ (tokens ++ after) ++ [closing])) (fun _ => True) fun form =>
        form.erase = (Form.function ⟨info, name, visibility, params,
          firsts ++ found :: lasts⟩).erase := by
    rw [hvalue]
    cases visibility <;> exact function_takes info hheading hargs hclosing opening.location
  refine (definition_takes hopen hkind hfunction).imp fun form hform => hform.trans ?_
  simp [Form.erase, eraseList_eq, hfound]

theorem parse_of_definition {source : String} {words : List Token} {last : Token}
    {gives : Form → Prop} (hsource : tokenize source = words ++ [last]) (hne : words ≠ [])
    (h : Takes (definition expr) words (fun _ => True) gives) :
    ∃ result form, parse source = .ok result ∧ result.errors = [] ∧
      result.contract.body = [form] ∧ gives form := by
  obtain ⟨hscanned, _, _, hstart⟩ := ofTokens_tokenize hsource
  have hahead : (State.ofTokens (tokenize source)).ahead = words ++ [] := by
    rw [hstart, List.append_nil]
  obtain ⟨found, s, hform, hgives, hend, herrors⟩ := h hscanned hahead trivial
  have hforms : Parser.forms expr (.ofTokens (tokenize source)) = .done [some found] s := by
    rw [forms_cons expr_orderly (by rw [hahead, append_nil]; exact hne)]
    exact bind_eq_done.mpr ⟨_, _, formThenResume_of_definition expr_orderly hform herrors,
      bind_eq_done.mpr ⟨_, _, forms_nil hend, rfl⟩⟩
  obtain ⟨parsed, hparse, hbody, herrorsParsed⟩ := parse_of_forms hforms
  exact ⟨parsed, found, hparse, herrorsParsed.trans (by rw [herrors, hstart]), hbody, hgives⟩

end Parser

/-- A match is read as it is written, with the arms of `MatchWords`, wherever an expression is read
that may go one level deeper than its parts. A text that is a function with the match in its body is
parsed without errors, into that function. -/
theorem parse_match {levels : Nat} {tokens : List Token} {tree : Expr}
    (hmatch : Parser.MatchWords levels tokens tree) :
    Parser.Takes (Parser.exprWithin (levels + 1)) tokens (fun _ => True)
      (fun expr => expr.erase = tree.erase) ∧
    ∀ {source : String} {words : List Token} {last : Token} {form : Form},
      levels + 1 = Parser.maxNesting → tokenize source = words ++ [last] →
      Parser.InFunction tokens tree words form →
      ∃ result, parse source = .ok result ∧ result.errors = [] ∧
        result.contract.body.map Form.erase = [form.erase] := by
  refine ⟨hmatch.takes, ?_⟩
  intro source words last form hlevels hsource hfunction
  obtain ⟨result, found, hparse, herrors, hbody, hsame⟩ :=
    Parser.parse_of_definition hsource hfunction.ne_nil (hfunction.takes hmatch hlevels)
  exact ⟨result, hparse, herrors, by simp [hbody, hsame]⟩

/-! ## A match with patterns of all kinds -/

def wrapped : String :=
  "(define-private (f) a (match x ok (some v) v (err some e) e u7 b (ok x)) c)"

def wrappedArms : List Token :=
  [onLine .keyword 31 "ok", onLine .leftParen 34 "(", onLine .keyword 35 "some",
      onLine .identifier 40 "v", onLine .rightParen 41 ")"] ++ [onLine .identifier 43 "v"] ++
    ([onLine .leftParen 45 "(", onLine .keyword 46 "err", onLine .keyword 50 "some",
        onLine .identifier 55 "e", onLine .rightParen 56 ")"] ++ [onLine .identifier 58 "e"] ++
      ([⟨.uint, "7", "u7", ⟨1, 61, 60⟩⟩] ++ [onLine .identifier 63 "b"] ++
        [onLine .leftParen 65 "(", onLine .keyword 66 "ok", onLine .identifier 69 "x",
          onLine .rightParen 70 ")"]))

def wrappedMatch : List Token :=
  onLine .leftParen 22 "(" :: onLine .keyword 23 "match" ::
    ([onLine .identifier 29 "x"] ++ (wrappedArms ++ [onLine .rightParen 71 ")"]))

def wrappedFunction : List Token :=
  onLine .leftParen 0 "(" :: onLine .keyword 1 "define-private" ::
    ([onLine .leftParen 16 "(", onLine .identifier 17 "f", onLine .rightParen 18 ")"] ++
      ([onLine .identifier 20 "a"] ++ (wrappedMatch ++ [onLine .identifier 73 "c"]) ++
        [onLine .rightParen 74 ")"]))

theorem parse_match_wrapped : ∃ result, parse wrapped = .ok result ∧ result.errors = [] ∧
      result.contract.body.map Form.erase =
        [.function ⟨.nowhere, "f", .internal, [], [.identifier .nowhere "a",
          .matchOn .nowhere (.identifier .nowhere "x")
            [⟨.nowhere, .wrapper .nowhere .ok (some (.wrapper .nowhere .some
                (some (.identifier .nowhere "v")))), [.identifier .nowhere "v"]⟩,
              ⟨.nowhere, .wrapper .nowhere .err (some (.wrapper .nowhere .some
                (some (.identifier .nowhere "e")))), [.identifier .nowhere "e"]⟩,
              ⟨.nowhere, .literal .nowhere .nowhere (.uint 7), [.identifier .nowhere "b"]⟩,
              ⟨.nowhere, .none .nowhere, [.call .nowhere "ok" [.identifier .nowhere "x"]]⟩],
          .identifier .nowhere "c"]⟩] := by
  have hsource : tokenize wrapped = wrappedFunction ++ [onLine .endOfInput 75 ""] :=
    (tokenize_eq_tokensOf rfl).trans (by decide +kernel)
  obtain ⟨x, hx, hxTree⟩ := phrase_onLine 127 29 "x"
  obtain ⟨v, hv, hvTree⟩ := phrase_onLine 127 43 "v"
  obtain ⟨e, he, heTree⟩ := phrase_onLine 127 58 "e"
  obtain ⟨b, hb, hbTree⟩ := phrase_onLine 127 63 "b"
  obtain ⟨a, ha, haTree⟩ := exprs_onLine 128 20 "a"
  obtain ⟨c, hc, hcTree⟩ := exprs_onLine 128 73 "c"
  have hlast : ∃ tree, Parser.Phrase (Parser.exprWithin 127)
      [onLine .leftParen 65 "(", onLine .keyword 66 "ok", onLine .identifier 69 "x",
        onLine .rightParen 70 ")"] tree ∧
      tree.erase = .call .nowhere "ok" [.identifier .nowhere "x"] :=
    ⟨_, ⟨_, rfl, rfl, rfl⟩, rfl⟩
  obtain ⟨last, hlast, hlastTree⟩ := hlast
  have harms : Parser.ArmWords 127 wrappedArms
      [⟨.nowhere, .wrapper .nowhere .ok (some (.wrapper .nowhere .some
          (some (.identifier .nowhere "v")))), [v]⟩,
        ⟨.nowhere, .wrapper .nowhere .err (some (.wrapper .nowhere .some
          (some (.identifier .nowhere "e")))), [e]⟩,
        ⟨.nowhere, .literal .nowhere .nowhere (.uint 7), [b]⟩,
        ⟨.nowhere, .none .nowhere, [last]⟩] :=
    .cons .nowhere (.bare .nowhere rfl rfl
        (.parens .nowhere rfl rfl rfl (.name .nowhere rfl rfl (by decide)) rfl)) hv
      (Parser.apart_of_ne_dot (by simp [onLine])) <|
    .cons .nowhere (.parens .nowhere rfl rfl rfl
        (.bare .nowhere rfl rfl (.name .nowhere rfl rfl (by decide))) rfl) he
      (Parser.apart_of_ne_dot (by simp)) <|
    .cons .nowhere (.literal .nowhere .nowhere rfl rfl) hb
      (Parser.apart_of_ne_dot (by simp [onLine])) <|
    .last .nowhere .nowhere hlast (by rintro _ _ _ ⟨⟩; rfl)
  have hmatch : Parser.MatchWords 127 wrappedMatch (.matchOn .nowhere x _) :=
    .intro .nowhere rfl rfl rfl hx (Parser.apart_of_ne_dot (by simp [wrappedArms, onLine])) harms
      rfl
  have hsignature : Parser.Phrase Parser.signature
      [onLine .leftParen 16 "(", onLine .identifier 17 "f", onLine .rightParen 18 ")"]
      ("f", []) := ⟨_, rfl, rfl, rfl⟩
  have hfunction (tree : Expr) : Parser.InFunction wrappedMatch tree wrappedFunction
      (.function ⟨.nowhere, "f", .internal, [], [a, tree, c]⟩) :=
    .intro .nowhere rfl rfl rfl hsignature ha hc rfl
  obtain ⟨result, hparse, herrors, hbody⟩ := (parse_match hmatch).2 rfl hsource (hfunction _)
  refine ⟨result, hparse, herrors, hbody.trans ?_⟩
  simp [Form.erase, Expr.eraseList_eq, Expr.erase, Expr.eraseArms, Pattern.erase, haTree, hxTree,
    hvTree, heTree, hbTree, hlastTree, hcTree]

/-! ## Matches that are read otherwise -/

/-- A pattern in parentheses inside another one is an error, a dotted name at the end becomes a
pattern with a body, and a contract in front of a body becomes an arm of its own. -/
theorem parse_match_misread :
    (∃ result, parse "(define-private (f) (match x (ok (some v)) v))" = .ok result ∧
      result.errors.map (·.message) = ["Expected ')' after 'ok' pattern, found '('"]) ∧
    (∃ result, parse "(define-private (f) (match x a.b))" = .ok result ∧
      (result.errors.map (·.message), result.contract.print) =
        ([], "( define-private ( f ) ( match x a '.b ) )")) ∧
    (∃ result, parse "(define-private (f) (match x .c v))" = .ok result ∧
      (result.errors.map (·.message), result.contract.print) =
        ([], "( define-private ( f ) ( match x none '.c none v ) )")) := by
  exact ⟨exists_parse rfl (by decide +kernel), exists_parse rfl (by decide +kernel),
    exists_parse rfl (by decide +kernel)⟩

end ContractAudit
