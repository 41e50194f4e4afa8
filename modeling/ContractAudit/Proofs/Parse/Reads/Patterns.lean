import ContractAudit.Proofs.Parse.Reads.Basic

/-!
# What patterns are read of

A wrapper pattern in parentheses is read as a pattern because the body of its arm stands behind it.
In a printed pattern the patterns inside of the parentheses stand bare, and the innermost is
followed by the closing one.
-/

namespace ContractAudit

open List Wrapper

variable {token : Token}

theorem Wrapper.ofLabel?_label (kind : Wrapper) : ofLabel? kind.label = Option.some kind := by
  cases kind <;> rfl

theorem Wrapper.ofLabel?_eq_none {word} (h : ∀ kind : Wrapper, kind.label ≠ word) :
    ofLabel? word = none := by
  refine find?_eq_none.mpr fun kind _ => ?_
  simpa using h kind

theorem Wrapper.wordKind_label (kind : Wrapper) : Scan.wordKind kind.label.toList = .keyword := by
  cases kind <;> decide

theorem Pattern.opens_marks (pattern : Pattern) : Opens pattern.marks := by
  cases pattern with
  | wrapper info kind inner => exact opens_parens _
  | _ => exact ⟨_, [], rfl, nofun⟩

theorem Pattern.ofLabel?_of_printable {info name}
    (h : (Pattern.identifier info name).printable = true) :
    ofLabel? name = Option.none ∧ name ≠ "none" := by
  simp only [Pattern.printable, Bool.and_eq_true, Bool.not_eq_true', contains_eq_mem,
    decide_eq_false_iff_not, mem_cons, not_mem_nil, or_false, not_or] at h
  obtain ⟨_, hok, herr, hsome, hnone⟩ := h
  refine ⟨ofLabel?_eq_none fun kind => ?_, hnone⟩
  cases kind with
  | ok => exact fun hlabel => hok hlabel.symm
  | err => exact fun hlabel => herr hlabel.symm
  | some => exact fun hlabel => hsome hlabel.symm

namespace Parser

open Parse

variable {nested : Parser (Option Pattern)} {follow : List Token → Prop} {pattern : Pattern}
  {kind : Wrapper} {inner : Option Pattern} {words body rest : List Token} {value : Literal}
  {first : Token} (info : NodeInfo)

def Finds (pattern : Pattern) (found : Option Pattern) : Prop :=
  found.map Pattern.erase = some pattern.erase

/-! ## Patterns of one token -/

theorem literal_takes (hvalue : literalValue token = pure value) :
    Takes literal [token] follow fun found => found.2 = value := by
  refine advance_bind_takes ?_
  rw [hvalue]
  exact (pure_takes rfl).bind_nil fun found hfound => node_takes fun _ => hfound.symm

theorem present_takes {parser}
    (h : Takes parser words follow fun found => found.erase = pattern.erase) :
    Takes (do pure (some (← parser))) words follow (Finds pattern) := by
  refine h.bind_nil fun found hfound => pure_takes ?_
  rw [Finds, Option.map_some, hfound]

theorem patternWith_takes_name (hname : token.kind.isName = true)
    (hlabel : ofLabel? token.value = none) (hnone : token.value ≠ "none") :
    Takes (patternWith nested) [token] follow (Finds (.identifier info token.value)) := by
  refine peek_bind_takes ?_
  cases hkind : token.kind with
  | identifier => exact advance_bind_takes (node_takes fun place => rfl)
  | keyword =>
      refine present_takes (advance_bind_takes ?_)
      rw [wordPatternAfter, hlabel]
      refine node_takes fun place => ?_
      rw [if_neg hnone]
      rfl
  | _ =>
      rw [hkind] at hname
      cases hname

theorem patternWith_takes_none (hkind : token.kind = .keyword) (hvalue : token.value = "none") :
    Takes (patternWith nested) [token] follow (Finds (.none info)) := by
  refine peek_bind_takes ?_
  rw [hkind]
  refine present_takes (advance_bind_takes ?_)
  rw [wordPatternAfter, hvalue]
  exact node_takes fun place => rfl

theorem patternWith_takes_literal (place : NodeInfo) (hkind : token.kind.isLiteral = true)
    (hvalue : literalValue token = pure value) :
    Takes (patternWith nested) [token] follow (Finds (.literal info place value)) := by
  have hpattern : Takes (literalPattern token) [token] follow
      (Finds (.literal info place value)) := by
    rw [literalPattern, if_pos hkind]
    refine (literal_takes hvalue).bind_nil fun found hfound => node_takes fun info => ?_
    rw [Finds, hfound]
    rfl
  refine peek_bind_takes ?_
  cases hcase : token.kind with
  | leftParen | keyword | identifier =>
      rw [hcase] at hkind
      cases hkind
  | _ => exact hpattern

/-! ## Wrappers -/

/-- What a wrapper holds, if anything, is read behind its word. -/
def TakesInner (nested : Parser (Option Pattern)) (words : List Token)
    (follow : List Token → Prop) (inner : Option Pattern) : Prop :=
  Takes (unlessClosed nested) words follow fun found =>
    found.join.map Pattern.erase = inner.map Pattern.erase

theorem takesInner_some (h : Takes nested words follow (Finds pattern))
    (hcontinued : Continued words) : TakesInner nested words follow (some pattern) := by
  refine (unlessClosed_takes (fun _ => hcontinued) h).imp ?_
  rintro _ ⟨found, rfl, hfound⟩
  exact hfound

theorem takesInner_none : TakesInner nested [] Closed none :=
  unlessClosed_closed.imp fun _ hfound => by rw [hfound]; rfl

theorem erase_wrapper (kind : Wrapper) (inner : Option Pattern) :
    (Pattern.wrapper info kind inner).erase = .wrapper .nowhere kind (inner.map Pattern.erase) := by
  cases inner <;> rfl

theorem patternWith_takes_bare (hkind : token.kind = .keyword)
    (hlabel : ofLabel? token.value = some kind) (h : TakesInner nested words follow inner) :
    Takes (patternWith nested) (token :: words) follow (Finds (.wrapper info kind inner)) := by
  refine peek_bind_takes ?_
  rw [hkind]
  refine present_takes (advance_bind_takes ?_)
  rw [wordPatternAfter, hlabel]
  refine h.bind_nil fun found hfound => node_takes fun place => ?_
  rw [erase_wrapper, erase_wrapper, hfound]

theorem moreFollows_of_ne_paren
    (h : ∀ token ∈ words, token.kind ≠ .leftParen ∧ token.kind ≠ .rightParen)
    (hend : ∀ token ∈ words, token.kind ≠ .endOfInput) (depth : Nat) :
    moreFollows depth (words ++ rest) = moreFollows depth rest := by
  induction words with
  | nil => rfl
  | cons token words ih =>
      obtain ⟨hleft, hright⟩ := h token (by simp)
      rw [cons_append, moreFollows_cons hleft hright (hend token (by simp))]
      exact ih (fun other hother => h other (mem_cons_of_mem token hother))
        fun other hother => hend other (mem_cons_of_mem token hother)

section Parens

variable {opening closing : Token} (hopen : opening.kind = .leftParen)
  (hkind : token.kind = .keyword) (hclosing : closing.kind = .rightParen)

include hopen hkind hclosing

theorem patternWith_takes_paren (hhead : isPatternHead token = true)
    (hwords : ∀ word ∈ words, word.kind ≠ .leftParen ∧ word.kind ≠ .rightParen)
    (h : Takes (parenPatternAfter nested opening.location token) (words ++ [closing]) Continued
      fun found => found.erase = pattern.erase) :
    Takes (patternWith nested) (opening :: token :: (words ++ [closing])) Continued
      (Finds pattern) := by
  refine peek_bind_takes ?_
  rw [hopen]
  refine ask_bind_takes token (fun s rest _ hahead _ => State.second_eq hahead) ?_
  refine ask_bind_takes true (fun s rest hscanned hahead hrest => ?_)
    (present_takes (advance_bind_takes (advance_bind_takes h)))
  obtain ⟨next, more, rfl, hnext, hmore⟩ := hrest
  have hend (word) (hword : word ∈ words) : word.kind ≠ .endOfInput :=
    (hscanned word (by simp [hword])).2.2
  have hfollows : moreFollows 0 s.ahead = true := by
    rw [hahead, cons_append, cons_append, append_assoc,
      moreFollows_leftParen hopen, moreFollows_cons (by simp [hkind]) (by simp [hkind])
        (by simp [hkind]),
      moreFollows_of_ne_paren hwords hend, singleton_append, moreFollows_rightParen hclosing]
    simp [hnext, hmore]
  rw [hhead, moreFollows_unread, hfollows]
  rfl

theorem patternWith_takes_parens (info : NodeInfo)
    (hlabel : ofLabel? token.value = some kind) (h : TakesInner nested words Closed inner)
    (hwords : ∀ word ∈ words, word.kind ≠ .leftParen ∧ word.kind ≠ .rightParen) :
    Takes (patternWith nested) (opening :: token :: (words ++ [closing])) Continued
      (Finds (.wrapper info kind inner)) := by
  refine patternWith_takes_paren hopen hkind hclosing (by simp [isPatternHead, hkind, hlabel])
    hwords ?_
  rw [parenPatternAfter, hlabel]
  refine h.bind (fun found hfound => closeNode_takes hclosing fun place => ?_)
    fun rest _ => ⟨closing, rest, rfl, hclosing⟩
  rw [erase_wrapper, erase_wrapper, hfound]

theorem patternWith_takes_parensNone (info : NodeInfo) (hvalue : token.value = "none") :
    Takes (patternWith nested) [opening, token, closing] Continued (Finds (.none info)) := by
  have hafter : Takes (parenPatternAfter nested opening.location token) ([] ++ [closing]) Continued
      fun found => found.erase = (Pattern.none info).erase := by
    rw [parenPatternAfter, hvalue]
    exact closeNode_takes hclosing fun place => rfl
  exact patternWith_takes_paren hopen hkind hclosing (by simp [isPatternHead, hkind, hvalue])
    (forall_mem_nil _) hafter

end Parens

/-! ## Arms -/

/-- A pattern may have a level for each token but the first. -/
theorem pattern_takes {gives : Option Pattern → Prop} (h : ∀ levels, words.length ≤ levels →
      Takes (patternWith (patternWithin levels)) (first :: words) follow gives) :
    Takes Parser.pattern (first :: words) follow gives := by
  intro s rest hscanned hahead
  rw [Parser.pattern, hahead]
  exact h _ (by simp) hscanned hahead

theorem armPattern?_takes (h : Takes Parser.pattern (first :: words) Continued (Finds pattern))
    (hsecond : ∀ rest, Continued rest → first.kind = .leftParen ∨ Continued (words ++ rest)) :
    Takes armPattern? (first :: words) Continued (Finds pattern) := by
  refine ask_bind_takes false (fun s rest _ hahead hrest => ?_) h
  rcases hsecond rest hrest with hopen | ⟨second, others, hmore, hright, hend⟩
  · simp [State.sees, State.current_eq hahead, hopen]
  · rw [cons_append, hmore] at hahead
    simp [State.second_eq hahead, hright, hend]

theorem matchArm_takes {nested} {tree : Expr}
    (hpattern : Takes armPattern? words Continued (Finds pattern))
    (hbody : Takes nested body follow fun expr => expr.erase = tree.erase)
    (hcontinued : Scanned body → Continued body) :
    Takes (matchArm nested) (words ++ body) follow fun arm =>
      arm.erase = Arm.erase ⟨info, pattern, [tree]⟩ := by
  refine takes_of_scanned fun hscanned => ask_bind_takes_of_forall fun first => ?_
  refine hpattern.bind (fun found hfound => ?_)
    fun rest _ => (hcontinued (scanned_append.mp hscanned).2).append rest
  obtain ⟨found, rfl, hsame⟩ := Option.map_eq_some_iff.mp hfound
  have hpresent : Takes (orAbsent first.location (some found)) [] (fun _ => True) (· = found) :=
    pure_takes rfl
  refine Takes.bind hpresent (fun chosen hchosen => ?_) fun _ _ => trivial
  refine (unlessClosed_takes hcontinued hbody).bind_nil ?_
  rintro _ ⟨expr, rfl, hexpr⟩
  exact node_takes fun place => by simp [Arm.erase, hchosen, hsame, hexpr]

/-! ## Printed patterns -/

theorem bareMarks_flat (h : Written pattern.bareMarks words) : Continued words ∧
    ∀ token ∈ words, token.kind ≠ .leftParen ∧ token.kind ≠ .rightParen := by
  have hname {text : String} {token : Token} (h : IsToken text token) :
      (token.kind ≠ .rightParen ∧ token.kind ≠ .endOfInput) ∧
        token.kind ≠ .leftParen ∧ token.kind ≠ .rightParen := by
    have hkind := h.name
    refine ⟨⟨?_, ?_⟩, ?_, ?_⟩ <;> intro heq <;> rw [heq] at hkind <;> cases hkind
  fun_induction Pattern.bareMarks pattern generalizing words with
  | case1 info kind | case3 info | case4 info name =>
      obtain ⟨token, rfl, htoken⟩ := single_word _ h
      exact ⟨⟨token, [], rfl, (hname htoken).1⟩, by simpa using (hname htoken).2⟩
  | case2 info kind inner ih =>
      obtain ⟨token, rest, rfl, htoken, hrest⟩ := (single_word _).uncons h
      exact ⟨⟨token, rest, rfl, (hname htoken).1⟩,
        forall_mem_cons.mpr ⟨(hname htoken).2, (ih hrest).2⟩⟩
  | case5 info place value =>
      obtain ⟨token, rfl, hkind, _⟩ := single_literal _ h
      have hkinds : (token.kind ≠ .rightParen ∧ token.kind ≠ .endOfInput) ∧
          token.kind ≠ .leftParen ∧ token.kind ≠ .rightParen := by
        refine ⟨⟨?_, ?_⟩, ?_, ?_⟩ <;> intro heq <;> rw [heq] at hkind <;> cases hkind
      exact ⟨⟨token, [], rfl, hkinds.1⟩, by simpa using hkinds.2⟩

theorem patternWith_takes_flat (hprintable : pattern.printable = true)
    (hflat : ∀ info kind inner, pattern ≠ .wrapper info kind inner)
    (h : Written pattern.bareMarks words) : ∃ token, words = [token] ∧ ∀ nested follow,
      Takes (patternWith nested) [token] follow (Finds pattern) := by
  cases pattern with
  | wrapper info kind inner => exact absurd rfl (hflat info kind inner)
  | none info =>
      obtain ⟨token, rfl, htoken⟩ := single_word _ h
      have hkind : token.kind = .keyword := htoken.kind.trans (by decide)
      exact ⟨token, rfl, fun _ _ => patternWith_takes_none info hkind htoken.value⟩
  | identifier info name =>
      obtain ⟨token, rfl, htoken⟩ := single_word _ h
      obtain ⟨hlabel, hnone⟩ := Pattern.ofLabel?_of_printable hprintable
      obtain rfl := htoken.value
      exact ⟨token, rfl, fun _ _ => patternWith_takes_name info htoken.name hlabel hnone⟩
  | literal info place value =>
      obtain ⟨token, rfl, hkind, hvalue⟩ := single_literal _ h
      exact ⟨token, rfl, fun _ _ => patternWith_takes_literal info place hkind hvalue⟩

theorem wrapper_uncons {info}
    (h : Written (Pattern.wrapper info kind inner).bareMarks words) : ∃ token more,
    words = token :: more ∧ token.kind = .keyword ∧ ofLabel? token.value = some kind ∧
      (inner = none ∧ more = [] ∨ ∃ pattern, inner = some pattern ∧
        Written pattern.bareMarks more) := by
  cases inner with
  | none =>
      obtain ⟨token, rfl, htoken⟩ := single_word _ h
      exact ⟨token, [], rfl, htoken.kind.trans kind.wordKind_label,
        by rw [htoken.value, kind.ofLabel?_label], .inl ⟨rfl, rfl⟩⟩
  | some pattern =>
      obtain ⟨token, more, rfl, htoken, hmore⟩ := (single_word _).uncons h
      exact ⟨token, more, rfl, htoken.kind.trans kind.wordKind_label,
        by rw [htoken.value, kind.ofLabel?_label], .inr ⟨pattern, rfl, hmore⟩⟩

theorem patternWithin_takes_bare (levels : Nat) (hprintable : pattern.printable = true)
    (h : Written pattern.bareMarks words) (hlevels : words.length ≤ levels) :
    Takes (patternWithin levels) words Closed (Finds pattern) := by
  induction levels generalizing pattern words with
  | zero =>
      obtain ⟨first, more, rfl, _⟩ := (bareMarks_flat h).1
      simp at hlevels
  | succ levels ih =>
      cases pattern with
      | wrapper info kind inner =>
          obtain ⟨token, more, rfl, hkind, hlabel, ⟨rfl, rfl⟩ | ⟨pattern, rfl, hmore⟩⟩ :=
            wrapper_uncons h
          · exact patternWith_takes_bare info hkind hlabel takesInner_none
          · exact patternWith_takes_bare info hkind hlabel (takesInner_some
              (ih hprintable hmore (by simpa using hlevels)) (bareMarks_flat hmore).1)
      | _ =>
          obtain ⟨token, rfl, htakes⟩ := patternWith_takes_flat hprintable (by simp) h
          exact htakes _ _

theorem armPattern?_reads (hprintable : pattern.printable = true) :
    Reads inMarks Continued armPattern? pattern.marks (Finds pattern) := by
  intro words h
  cases pattern with
  | wrapper info kind inner =>
      obtain ⟨opening, others, rfl, hopen, hothers⟩ := single_open.uncons h
      obtain ⟨middle, ending, rfl, hmiddle, hending⟩ := Written.append_inv hothers
      obtain ⟨closing, rfl, hclosing⟩ := single_close hending
      have hwords := (bareMarks_flat hmiddle).2
      obtain ⟨token, more, rfl, hkind, hlabel, hinner⟩ := wrapper_uncons hmiddle
      refine armPattern?_takes (pattern_takes fun levels hlevels => ?_) fun _ _ => .inl hopen
      refine patternWith_takes_parens hopen hkind hclosing info hlabel ?_
        fun word hword => hwords word (mem_cons_of_mem token hword)
      obtain ⟨rfl, rfl⟩ | ⟨pattern, rfl, hmore⟩ := hinner
      · exact takesInner_none
      · refine takesInner_some (patternWithin_takes_bare _ hprintable hmore ?_)
          (bareMarks_flat hmore).1
        simp only [cons_append, length_cons, length_append] at hlevels
        omega
  | _ =>
      obtain ⟨token, rfl, htakes⟩ := patternWith_takes_flat hprintable (by simp) h
      exact armPattern?_takes (pattern_takes fun _ _ => htakes _ _) fun _ hrest => .inr hrest

end Parser

end ContractAudit
