import ContractAudit.Proofs.Parse.Balanced
import ContractAudit.Proofs.Parse.Clean.Types
import ContractAudit.Proofs.Parse.Progress
import Mathlib.Data.List.TakeDrop

/-!
# Literals, patterns and names read without errors

A literal is one token. A pattern that is not there is read as nothing. A name with dots in it is
read from tokens that touch, so the last of them ends after the first one starts. The parser looks
far ahead in one place: whether a form in parentheses is a pattern depends on what follows it.
-/

namespace ContractAudit

open List String Pattern TokenKind Bool Wrapper

variable {head token : Token} {kind : Wrapper}

theorem Wrapper.eq_label {word} (h : ofLabel? word = Option.some kind) : word = kind.label := by
  have hfound := find?_some h
  exact (by simpa using hfound : kind.label = word).symm

namespace Parser

open Parse State Lexeme

variable {s s' : State} {numbered : Prop} {given keep : State → Prop} {name : String}

/-! ## Literals -/

theorem principalValue_span (text : String) : '.' ∉ (ofList (text.toList.span (· ≠ '.')).1).toList ∧
      principalValue (ofList (text.toList.span (· ≠ '.')).1)
        ((text.toList.span (· ≠ '.')).2.tail?.map ofList) = text := by
  rw [span_eq_takeWhile_dropWhile]
  refine ⟨fun h => ?_, ?_⟩
  · rw [toList_ofList] at h
    simpa using mem_takeWhile_imp h
  · have hsplit := takeWhile_append_dropWhile (p := (· ≠ '.')) (l := text.toList)
    cases hrest : text.toList.dropWhile (· ≠ '.') with
    | nil =>
        rw [hrest, append_nil] at hsplit
        simp only [principalValue, tail?_nil, Option.map_none]
        rw [hsplit, ofList_toList]
    | cons c rest =>
        have hdot : c = '.' := by
          have := head?_dropWhile_not (· ≠ '.') text.toList
          rw [hrest] at this
          simpa using this
        subst hdot
        rw [hrest] at hsplit
        apply toList_injective
        refine Eq.trans ?_ hsplit
        simp [principalValue]

theorem literalValue_blind (token : Token) : Blind numbered (fun value found => found = value ∧
      (token.kind.isLiteral = true → token.Lexical → SpellLiteral value token.lexeme))
      (literalValue token) (literalValue token) := by
  obtain ⟨kind, text, raw, location⟩ := token
  cases kind
  case uint =>
    exact (integer_blind text).bind fun _ _ h => pure_blind ⟨by rw [h.1], fun _ _ => .uint _ _ h.2⟩
  case int =>
    exact (integer_blind text).bind fun _ _ h => pure_blind ⟨by rw [h.1], fun _ _ => .int _ _ h.2⟩
  case bool =>
    refine pure_blind ⟨rfl, fun _ hlex => ?_⟩
    rcases hlex.bool rfl with rfl | rfl
    · exact .bool true
    · exact .bool false
  case principal =>
    obtain ⟨hdot, hvalue⟩ := principalValue_span text
    refine pure_blind ⟨rfl, fun _ _ => ?_⟩
    have hprincipal := SpellLiteral.principal _
      ((text.toList.span (· ≠ '.')).2.tail?.map ofList) hdot
    rwa [hvalue] at hprincipal
  case stringAscii | stringUtf8 | buffer =>
    refine pure_blind ⟨rfl, fun _ _ => ?_⟩
    constructor
  all_goals
    exact pure_blind ⟨rfl, fun hkind => by simp [isLiteral] at hkind⟩

theorem literal_follows (hkind : token.kind.isLiteral = true) :
    FollowsWhen numbered (·.current = token) Anchored (Matches numbered
      (fun value used => used = [token.lexeme] ∧ SpellLiteral value.2 token.lexeme)
      fun value found errors => errors = [] ∧ found.1.span = value.1.span ∧ found.2 = value.2)
      literal literal := by
  refine (advance_follows (· = token) fun s h => h).bind_same fun found =>
    ((literalValue_blind found).bind fun value _ hvalue => node_blind fun finish id id' hid =>
      ?_).follows fun _ h => h
  obtain ⟨rfl, hspell⟩ := hvalue
  rintro _ ⟨rfl, hlexical, rfl⟩
  exact ⟨⟨rfl, hspell hkind hlexical⟩, ⟨rfl, rfl, rfl⟩, fun h => by simp [hid h]⟩

/-! ## Patterns -/

def SamePattern : Cuts Pattern :=
  fun value found errors => found.same value = true ∧ errors = []

/-- A closing bracket is ahead, and whether something follows the form that starts here does not
depend on further tokens. -/
def Settled (s : State) : Prop :=
  s.Anchored ∧ (s.sees .leftParen = true → ∀ more,
    moreFollows 0 (s.ahead ++ more) = moreFollows 0 s.ahead)

theorem settled_of_closing (h : s.Closing) : Settled s :=
  ⟨h.anchored, fun hopen => by simp [State.sees, sees_iff.mp h] at hopen⟩

theorem literalPattern_follows (token : Token) :
    FollowsWhen numbered (·.current = token) Settled
      (Matches numbered SpellInner (Maybe SamePattern))
      (literalPattern token) (literalPattern token) := by
  unfold literalPattern
  split
  · next hkind =>
      refine (literal_follows hkind).bind fun value found => (node_blind
        fun finish id id' hid used errors h => ?_).follows fun _ h => h.1
      obtain ⟨⟨rfl, hvalue⟩, ⟨rfl, hspan, hsame⟩, hnumbered⟩ := h
      refine ⟨.present _ _ (.literal _ value.1 value.2 _ hvalue), .some ⟨?_, rfl⟩, fun h => ?_⟩
      · simp [same, hspan, hsame]
      · simp [hid h, (hnumbered h).1]
  · exact pure_follows (fun _ h => h.1) ⟨.absent, .none, fun _ => ⟨rfl, rfl⟩⟩

section Patterns

variable {nested : Parser (Option Pattern)}
  (h : FollowsWhen numbered (fun _ => True) Settled
    (Matches numbered SpellInner (Maybe SamePattern)) nested nested)
  {used : List Lexeme} {span : Span} {id' id : Nat}

include h

theorem inner_follows : FollowsWhen numbered given Settled
    (fun value used found errors => Matches numbered SpellInner (Maybe SamePattern) value.join used
      found.join errors) (unlessClosed nested) (unlessClosed nested) :=
  unlessClosed_follows (fun _ h => h.1) (fun _ _ _ => ⟨.absent, .none, fun _ => ⟨rfl, rfl⟩⟩)
    (fun _ _ _ _ h => h) h

omit h in
theorem wrapper_matches {inner inner' all} {errors} (hid : numbered → id' = id)
    (hinner : Matches numbered SpellInner (Maybe SamePattern) inner used inner' errors)
    (hspell : SpellInner inner used → SpellPattern (.wrapper ⟨span, id⟩ kind inner) all) :
    Matches numbered SpellPattern SamePattern (.wrapper ⟨span, id⟩ kind inner) all
      (.wrapper ⟨span, id'⟩ kind inner') errors := by
  obtain ⟨hspelled, hcut, hsame⟩ := hinner
  refine ⟨hspell hspelled, ?_, fun h => by simp [hid h, hsame h]⟩
  cases hcut with
  | none => exact ⟨by simp [same], rfl⟩
  | some hsome => exact ⟨by simp [same, hsome.1], hsome.2⟩

omit h in
theorem none_matches (hid : numbered → id' = id) (hspell : SpellPattern (.none ⟨span, id⟩) used) :
    Matches numbered SpellPattern SamePattern (.none ⟨span, id⟩) used (.none ⟨span, id'⟩) [] :=
  ⟨hspell, ⟨by simp [same], rfl⟩, fun h => by simp [hid h]⟩

theorem parenPatternAfter_follows (start : Location) (head : Token) :
    FollowsWhen numbered given keep (fun value used found errors => isPatternHead head = true →
      Matches numbered SpellPattern SamePattern value (leftParen :: word head.value :: used) found
        errors) (parenPatternAfter nested start head) (parenPatternAfter nested start head) := by
  unfold parenPatternAfter
  split
  · next kind hkind =>
      refine ((inner_follows h).mono (fun _ h => h) fun _ => settled_of_closing).thenClose
        fun inner inner' => node_blind fun finish id id' hid used errors hinner _ =>
          wrapper_matches hid hinner fun hspell => ?_
      rw [eq_label hkind]
      exact .parenWrapper _ kind inner.join used hspell
  · next hkind =>
      refine (node_blind fun finish id id' hid hhead => none_matches hid ?_).close
      have hnone : head.value = "none" := by
        simp only [isPatternHead, hkind, and_eq_true] at hhead
        simpa using hhead.2
      rw [hnone]
      exact .parenNone _

theorem parenPattern_follows (head : Token) :
    FollowsWhen numbered (fun s => s.sees .leftParen = true ∧ s.second = head) keep
      (fun value used found errors => isPatternHead head = true →
        Matches numbered SpellPattern SamePattern value used found errors)
      (parenPattern nested head) (parenPattern nested head) := by
  refine advance_second_follows (c := '(') (· = head) rfl (fun _ h => h) fun opening =>
    (advance_follows (· = head) fun s h => h).bind_same fun _ =>
      (parenPatternAfter_follows h opening.location head).imp ?_
  rintro _ _ _ _ hmatches _ ⟨rfl, hlexical, rfl⟩ hhead
  have hkeyword := hhead
  simp only [isPatternHead, and_eq_true, decide_eq_true_eq] at hkeyword
  rw [(hlexical.eq_word (by simp [hkeyword.1, isName])).2]
  exact hmatches hhead

theorem wordPattern_follows (hkind : token.kind = .keyword) :
    FollowsWhen numbered (·.current = token) Settled (Matches numbered SpellPattern SamePattern)
      (wordPattern nested token) (wordPattern nested token) := by
  refine (advance_name_follows (by simp [hkind, isName])).bind_same fun _ => ?_
  unfold wordPatternAfter
  split
  · next kind hlabel =>
      refine (inner_follows h).bind_keep (fun inner inner' =>
        (node_blind fun finish id id' hid used errors hinner => ?_).follows fun _ h => h.1)
        fun _ _ _ _ hruns => ?_
      · rintro _ ⟨_, _, rfl⟩
        rw [append_nil, append_nil, eq_label hlabel]
        exact wrapper_matches hid hinner (.wrapper _ kind inner.join used)
      · cases hruns.done
        exact hruns.kept
  · refine (node_blind fun finish id id' hid => ?_).follows fun _ h => h.1
    rintro _ ⟨_, hname, rfl⟩
    split
    · next hnone =>
        rw [hnone]
        exact none_matches hid (.none _)
    · exact ⟨.identifier _ token.value hname, ⟨by simp [same], rfl⟩,
        fun h => by simp [hid h]⟩

theorem patternWith_follows : FollowsWhen numbered (fun _ => True) Settled
    (Matches numbered SpellInner (Maybe SamePattern)) (patternWith nested)
      (patternWith nested) := by
  have hsome ⦃value : Pattern⦄ ⦃used : List Lexeme⦄ ⦃found : Pattern⦄ ⦃errors : List Diagnostic⦄
      (h : Matches numbered SpellPattern SamePattern value used found errors) :
      Matches numbered SpellInner (Maybe SamePattern) (some value) used (some found) errors :=
    ⟨.present _ _ h.spelled, .some h.cut, fun hnumbered => by simp [h.same hnumbered]⟩
  refine peek_bind_follows fun token => ?_
  cases hkind : token.kind with
  | leftParen =>
      refine ask_bind_follows (fun s _ _ t id past hruns hanchored => ?_) fun head =>
        ask_ite_follows (fun s value s' t id past hruns _ => ?_)
          (.of_given (isPatternHead head = true) (fun s hgiven => ?_)
            (((parenPattern_follows h head).mono (fun s hgiven => ?_) fun _ h => h).thenPure
              (fun _ h => h.1) fun _ _ _ _ hmatches hhead => hsome (hmatches hhead)))
          (pure_follows (fun _ h => h.1) ⟨.absent, .none, fun _ => ⟨rfl, rfl⟩⟩)
      · have hcurrent := hruns.given.2
        exact elsewhere_second hanchored (by simp [hcurrent, hkind]) (by simp [hcurrent, hkind])
      · -- If it is a pattern, there is enough behind it; if not, that is settled.
        have hrun := hruns.done
        split at hrun
        · next hpattern =>
            rw [and_eq_true, moreFollows_unread] at hpattern
            rw [moreFollows_unread, moreFollows_unread, hpattern.1, hpattern.2]
            exact moreFollows_append hpattern.2 t.ahead
        · cases hrun
          rw [moreFollows_unread, moreFollows_unread]
          exact congrArg _ (hruns.kept.2 (by rw [sees_iff, hruns.given.1.2, hkind]) t.ahead)
      · exact (and_eq_true _ _ ▸ hgiven.2).1
      · exact ⟨by rw [sees_iff, hgiven.1.1.2, hkind], hgiven.1.2⟩
  | keyword =>
      exact ((wordPattern_follows h hkind).mono (fun _ h => h.2) fun _ h => h).thenPure
        (fun _ h => h.1) hsome
  | identifier =>
      have hname : token.kind.isName = true := by simp [hkind, isName]
      refine ((advance_name_follows hname).mono (fun _ h => h.2) fun _ h => h).bind_same fun _ =>
        (node_blind fun finish id id' hid => ?_).follows fun _ h => h.1
      rintro _ ⟨_, hisName, rfl⟩
      exact hsome ⟨.identifier _ token.value hisName, ⟨by simp [same], rfl⟩,
        fun h => by simp [hid h]⟩
  | _ => exact (literalPattern_follows token).mono (fun _ h => h.2) fun _ h => h

end Patterns

theorem pattern_follows : FollowsWhen numbered given Settled
    (Matches numbered SpellInner (Maybe SamePattern)) pattern pattern := by
  have hwithin (levels : Nat) : FollowsWhen numbered (fun _ => True) Settled
      (Matches numbered SpellInner (Maybe SamePattern)) (patternWithin levels)
      (patternWithin levels) := by
    induction levels with
    | zero => exact pure_follows (fun _ h => h.1) ⟨.absent, .none, fun _ => ⟨rfl, rfl⟩⟩
    | succ levels ih => exact patternWith_follows ih
  refine ⟨pattern_orderly.goesOnward, fun s _ _ hruns => ?_, fun s _ _ t id past hruns => ?_⟩
  · exact (hwithin s.ahead.length).anchored
      ⟨trivial, hruns.lexical, hruns.done, hruns.clean, hruns.kept⟩
  · have hlevels : s.ahead.length ≤ (s.elsewhere t id past).ahead.length := by simp [elsewhere]
    have hrun := hruns.done
    rw [pattern, patternWithin_eq (Nat.le_refl _) hlevels] at hrun
    exact (hwithin _).follow t id past ⟨trivial, hruns.lexical, hrun, hruns.clean, hruns.kept⟩

/-! ## Names with dots -/

theorem dottedTail_took (last : Token) (name : String) (tokens : List Token) :
    ∃ used, tokens = used ++ (dottedTail last name tokens).2.2 ∧
      (dottedTail last name tokens).1 = used.getLastD last ∧
      (Lexical (last :: used) → last.kind.isName = true → (∀ lexemes₀, SpellName name lexemes₀ →
          SpellName (dottedTail last name tokens).2.1 (lexemes₀ ++ lexemes used)) ∧
        last.location.offset < (dottedTail last name tokens).1.finish.offset) := by
  fun_induction dottedTail last name tokens with
  | case1 last name dot word rest hjoined ih =>
      -- The dot starts where the last token ends, and the word right behind the dot.
      simp only [and_eq_true, decide_eq_true_eq] at hjoined
      obtain ⟨⟨⟨hdot, hdotOffset⟩, hword⟩, hwordOffset⟩ := hjoined
      obtain ⟨used, heq, hlast, hrest⟩ := ih
      refine ⟨dot :: word :: used, congrArg (dot :: word :: ·) heq,
        by simpa only [getLastD_cons] using hlast, fun hlex _ => ?_⟩
      simp only [lexical_cons] at hlex
      obtain ⟨hspell, hoffset⟩ := hrest (by simp [hlex]) hword
      refine ⟨fun first hfirst => ?_, by omega⟩
      have hnext := hspell _ (.dotted name word.value first hfirst (hlex.2.2.1.eq_word hword).1)
      have hdotEq : dot.lexeme = .dot := hlex.2.1.eq_of_punctuation (c := '.') rfl hdot
      simpa [hdotEq, (hlex.2.2.1.eq_word hword).2] using hnext
  | case2 | case3 =>
      exact ⟨[], rfl, rfl, fun hlex hlast => ⟨fun _ h => by simpa using h,
        (lexical_cons.mp hlex).1.offset_lt_finish hlast⟩⟩

theorem dottedTail_append {last : Token} {tokens} (h : ∃ token ∈ (dottedTail last name tokens).2.2,
      token.kind = .rightParen ∨ token.kind = .rightBrace) (more : List Token) :
    dottedTail last name (tokens ++ more) =
      ((dottedTail last name tokens).1, (dottedTail last name tokens).2.1,
        (dottedTail last name tokens).2.2 ++ more) := by
  fun_induction dottedTail last name tokens with
  | case1 last name dot word rest hjoined ih =>
      rw [cons_append, cons_append, dottedTail, if_pos hjoined]
      exact ih h
  | case2 last name dot word rest hjoined =>
      rw [cons_append, cons_append, dottedTail, if_neg hjoined]
  | case3 last name tokens hshort =>
      obtain ⟨token, htoken, hkind⟩ := h
      rcases tokens with _ | ⟨dot, _ | ⟨word, rest⟩⟩
      · cases htoken
      · obtain rfl := mem_singleton.mp htoken
        cases more with
        | nil => rfl
        | cons next rest =>
            have hdot : token.kind ≠ .dot := by rcases hkind with hkind | hkind <;> simp [hkind]
            simp [dottedTail, hdot]
      · exact absurd rfl (hshort dot word rest)

theorem dottedName_elsewhere (t : State) (id : Nat) (past : List Diagnostic)
    (h : Runs (·.current.kind.isName = true) Anchored dottedName s name s') :
    ∃ used, Took s used s' ∧ SpellName name (lexemes used) ∧ s'.nextId = s.nextId ∧
      s.current.location.offset < s'.previous.finish.offset ∧
      dottedName (s.elsewhere t id past) = .done name (s'.elsewhere t id past) := by
  obtain ⟨hname, hlex, hrun, _, hkept⟩ := h
  have hne := (hkept.of_onward (dottedName_behaves.done hrun)).ne_nil
  obtain ⟨first, rest, hahead⟩ := exists_cons_of_ne_nil hne
  obtain ⟨used, heq, hlast, hused⟩ := dottedTail_took s.current s.current.value s.advance.ahead
  have hadvance : s.advance.ahead = rest := State.ahead_advance hahead
  have htokens : s.ahead = s.current :: s.advance.ahead := by
    rw [hadvance, current_eq hahead, hahead]
  have hlexUsed : Lexical (s.current :: used) := fun token htoken => hlex token <| by
    rw [htokens, heq, ← cons_append]
    exact mem_append_left _ htoken
  obtain ⟨hspell, hoffset⟩ := hused hlexUsed hname
  have hword := (lexical_cons.mp hlexUsed).1.eq_word hname
  rw [dottedName_run] at hrun
  cases hrun
  refine ⟨s.current :: used, ⟨by rw [htokens, cons_append, ← heq], ?_⟩, ?_,
    State.advance_nextId s, hoffset, ?_⟩
  · rw [getLastD_cons]
    exact hlast
  · rw [lexemes_cons, hword.2]
    exact hspell _ (.word _ hword.1)
  · exact dottedName_eq (elsewhere_current hne) (elsewhere_advance hne)
      (dottedTail_append hkept t.ahead) ⟨used, by rw [← List.append_assoc, ← heq]; rfl⟩

theorem dottedName_follows : FollowsWhen numbered (·.current.kind.isName = true) Anchored
    (Same SpellName) dottedName dottedName where
  onward := dottedName_behaves.goesOnward
  anchored := fun _ _ _ hruns => hruns.kept.of_onward (dottedName_behaves.done hruns.done)
  follow := fun s name s' t id past hruns hid => by
    obtain ⟨used, htook, hspell, hid', _, hname⟩ := dottedName_elsewhere t id past hruns
    exact ⟨used, name, id, [], htook, ⟨rfl, rfl, hspell⟩, fun h => by rw [hid', hid h],
      by rwa [append_nil]⟩

end Parser

end ContractAudit
