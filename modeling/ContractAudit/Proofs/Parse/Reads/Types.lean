import ContractAudit.Proofs.Parse.Progress
import ContractAudit.Proofs.Parse.Reads.Basic
import ContractAudit.Proofs.Parse.Spelling

/-!
# Types are read as they are spelled

Whatever brackets a type is written in, the parser takes just its tokens and finds that type, up to
where it stands. A printed type is a spelling of itself.
-/

namespace ContractAudit

open Parse List State TypeParam SpellType

variable {spec : TypeSpec} {name : String} {spelling later : List Lexeme} {lexeme : Lexeme}
  {kind : TokenKind}

theorem SpellType.opens (h : SpellType spec spelling) : ∃ lexeme later, spelling = lexeme :: later ∧
    (lexeme.kind.isName = true ∨ lexeme.kind = .leftParen ∨ lexeme.kind = .leftBrace) := by
  cases h with
  | word span name hname => exact ⟨_, _, rfl, .inl hname⟩
  | named | parenTuple => exact ⟨_, _, rfl, .inr (.inl rfl)⟩
  | braceTuple => exact ⟨_, _, rfl, .inr (.inr rfl)⟩

theorem SpellType.kind_ne (h : kind.isName = true ∨ kind = .leftParen ∨ kind = .leftBrace) :
    ¬(kind = .int ∨ kind = .uint) ∧ kind ≠ .rightParen ∧ kind ≠ .endOfInput := by
  rcases h with h | rfl | rfl
  · refine ⟨?_, ?_, ?_⟩
    · rintro (rfl | rfl) <;> cases h
    · rintro rfl
      cases h
    · rintro rfl
      cases h
  · simp
  · simp

namespace Parser

variable {α β : Type} {nested first : Parser TypeSpec} {follow : List Token → Prop}
  {fields : List (String × TypeSpec)}

def inLexemes : Script Lexeme where
  writes spelling tokens := lexemes tokens = spelling
  nil h := map_eq_nil_iff.mp h
  append h := map_eq_append_iff.mp h

theorem single_lexeme (lexeme : Lexeme) : inLexemes.Single lexeme (·.lexeme = lexeme) := by
  intro tokens h
  obtain ⟨token, rest, rfl, htoken, hrest⟩ := map_eq_cons_iff.mp h
  obtain rfl := map_eq_nil_iff.mp hrest
  exact ⟨token, rfl, htoken⟩

theorem single_kind (h : lexeme.kind = kind) : inLexemes.Single lexeme (·.kind = kind) := by
  intro tokens hwritten
  obtain ⟨token, rfl, htoken⟩ := single_lexeme lexeme hwritten
  exact ⟨token, rfl, (congrArg Lexeme.kind htoken).trans h⟩

theorem single_name (hname : IsName name) : inLexemes.Single (.word name) fun token =>
    token.kind.isName = true ∧ token.value = name := by
  intro tokens hwritten
  obtain ⟨token, rfl, htoken⟩ := single_lexeme (.word name) hwritten
  refine ⟨token, rfl, ?_, congrArg Lexeme.value htoken⟩
  rw [show token.kind = _ from congrArg Lexeme.kind htoken]
  exact hname

/-- A type is taken, however it is spelled. -/
def ReadsType (spec : TypeSpec) (spelling : List Lexeme) : Prop :=
  Reads inLexemes (fun _ => True) typeSpec spelling (·.erase = spec.erase)

theorem expectName_spelled (hname : IsName name) (what : String) :
    Reads inLexemes follow (expectName what) [.word name] (· = name) :=
  (single_name hname).reads fun _ htoken => htoken.2 ▸ expectName_takes what htoken.1

/-! ## Parameters and fields -/

theorem typeParam_spelled_size {value : Int} (h : SpellSize value lexeme) :
    Reads inLexemes (fun _ => True) (typeParam typeSpec) [lexeme] (·.erase = .size value) := by
  refine (single_lexeme lexeme).reads ?_
  rintro token rfl
  obtain ⟨hkind, hread⟩ : (token.kind = .int ∨ token.kind = .uint) ∧
    Text.Numeral.read token.value = .ok value := h
  refine peek_bind_takes ?_
  rw [if_pos (by simpa using hkind)]
  refine advance_bind_takes ?_
  rw [integer, hread]
  exact (pure_takes rfl).bind_nil fun number hnumber => pure_takes (by rw [hnumber]; rfl)

theorem typeParam_spelled_type (h : SpellType spec spelling) (htype : ReadsType spec spelling) :
    Reads inLexemes (fun _ => True) (typeParam typeSpec) spelling (·.erase = .type spec.erase) := by
  obtain ⟨lexeme, later, rfl, hopens⟩ := h.opens
  refine peek_bind_reads (single_kind rfl) fun token hkind => ?_
  rw [if_neg (by simpa [hkind] using (kind_ne hopens).1)]
  exact htype.bind_nil fun found hfound => pure_takes (by rw [erase, hfound])

theorem parenTypeField_spelled (hname : IsName name) (h : ReadsType spec spelling) :
    Reads inLexemes (fun _ => True) (parenTypeField typeSpec)
      (Lexeme.parens (.word name :: spelling))
      fun found => (found.1, found.2.erase) = (name, spec.erase) := by
  refine advance_bind_reads (single_lexeme _) fun _ _ => (expectName_spelled hname _).bind
    fun found hfound => h.bind fun found' hspec => ?_
  refine Reads.bind_nil ((single_kind rfl).reads fun _ => close_takes _) fun _ _ => pure_takes ?_
  rw [hfound, hspec]

theorem braceTypeField_spelled (hname : IsName name) (h : ReadsType spec spelling) :
    Reads inLexemes (fun _ => True) (braceTypeField typeSpec) (.word name :: .colon :: spelling)
      fun found => (found.1, found.2.erase) = (name, spec.erase) := by
  have hcolon : Reads inLexemes (fun _ => True) (expect .colon _) [.colon] fun _ => True :=
    (single_kind rfl).reads fun _ hkind => (hkind ▸ expect_takes
      "Expected ':' after tuple field name").imp fun _ _ => trivial
  refine (expectName_spelled hname _).bind fun found hfound => hcolon.bind fun _ _ =>
    h.bind_nil fun found' hspec => pure_takes ?_
  rw [hfound, hspec]

def BraceClosed (rest : List Token) : Prop :=
  ∃ closing more, rest = closing :: more ∧ closing.kind = .rightBrace

theorem braceTypeFields_spelled (hname : IsName name) (h : ReadsType spec spelling)
    (hrest : later = [] ∧ fields = [] ∨ ∃ others, later = .comma :: others ∧
      Reads inLexemes BraceClosed (separated (braceTypeField typeSpec)) others
      (TypeSpec.eraseFields · = TypeSpec.eraseFields fields)) :
    Reads inLexemes BraceClosed (separated (braceTypeField typeSpec))
      (.word name :: .colon :: (spelling ++ later))
      (TypeSpec.eraseFields · = TypeSpec.eraseFields ((name, spec) :: fields)) := by
  rw [separated_unfolds (braceTypeField_behaves typeSpec_behaves).goesOnward, commaRound]
  refine ask_bind_reads false (fun s tokens rest hwritten hahead _ => ?_) ?_
  · obtain ⟨token, more, rfl, htoken, _⟩ := (single_name hname).uncons hwritten
    have hkind : token.kind ≠ .rightBrace := fun hkind => by
      simp [hkind, TokenKind.isName] at htoken
    simp [sees, atEnd_eq_isEmpty, current_eq hahead, hahead, hkind]
  · refine (braceTypeField_spelled hname h).bind fun found hfound => ?_
    obtain ⟨rfl, rfl⟩ | ⟨others, rfl, hothers⟩ := hrest
    · refine ask_bind_reads false (fun s tokens rest hwritten hahead hclosed => ?_) (reads_nil ?_)
      · obtain ⟨closing, more, rfl, hkind⟩ := hclosed
        obtain rfl := inLexemes.nil hwritten
        simp [sees, current_eq hahead, hkind]
      · exact pure_takes (by simp [TypeSpec.eraseFields_eq, hfound])
    · refine ask_bind_reads true (fun s tokens rest hwritten hahead _ => ?_) ?_
      · obtain ⟨token, more, rfl, hkind, _⟩ := (single_kind rfl).uncons hwritten
        simp [sees, current_eq hahead, hkind, Lexeme.comma]
      · refine advance_bind_reads (single_lexeme _) fun _ _ =>
          hothers.bind_nil fun found' hfields =>
          pure_takes ?_
        rw [TypeSpec.eraseFields_eq] at hfields ⊢
        rw [map_cons, hfound, hfields, TypeSpec.eraseFields]

theorem closeType_spelled {start} {make : Span → TypeSpec} (what : String)
    (h : ∀ span, (make span).erase = spec.erase) :
    Reads inLexemes follow (do
      close what
      pure (make (← spanFrom start))) [.rightParen] (·.erase = spec.erase) :=
  Reads.bind_nil ((single_kind rfl).reads fun _ => close_takes what) fun _ _ => span_takes h

/-! ## Types -/

theorem wordType_spelled (hname : IsName name) (span : Span) :
    ReadsType (.ofWord span name) [.word name] := by
  rw [ReadsType, typeSpec_unfolds]
  refine (single_name hname).reads ?_
  rintro token ⟨hkind, rfl⟩
  have hword : Takes (wordType token) [token] (fun _ => True)
      (·.erase = (TypeSpec.ofWord span token.value).erase) :=
    advance_bind_takes (span_takes fun place => by
      rw [TypeSpec.ofWord, TypeSpec.ofWord]
      split <;> rfl)
  refine peek_bind_takes ?_
  cases hcase : token.kind with
  | identifier | keyword => exact hword
  | _ =>
      rw [hcase] at hkind
      cases hkind

theorem parenType_spelled (hname : IsName name)
    (h : ∀ start, Reads inLexemes (fun _ => True) (parenTypeAfter typeSpec start name)
      (spelling ++ [.rightParen]) (·.erase = spec.erase)) :
    ReadsType spec (Lexeme.parens (.word name :: spelling)) := by
  rw [ReadsType, typeSpec_unfolds]
  refine peek_bind_reads (single_kind rfl) fun token hkind => ?_
  rw [hkind]
  refine advance_bind_reads (single_lexeme _) fun _ _ => (expectName_spelled hname _).bind
    fun found hfound => ?_
  rw [hfound]
  exact h _

theorem braceType_spelled {span : Span}
    (h : Reads inLexemes BraceClosed (separated (braceTypeField typeSpec)) spelling
      (TypeSpec.eraseFields · = TypeSpec.eraseFields fields)) :
    ReadsType (.tuple span fields) (Lexeme.braces spelling) := by
  rw [ReadsType, typeSpec_unfolds]
  refine peek_bind_reads (single_kind rfl) fun token hkind => ?_
  rw [hkind]
  refine advance_bind_reads (single_lexeme _) fun _ _ => h.bindWhen ?_ fun found hfound =>
    Reads.bind_nil ((single_kind rfl).reads fun _ hkind => hkind ▸ expect_takes _) fun _ _ =>
      span_takes fun place => by rw [TypeSpec.erase, TypeSpec.erase, hfound]
  intro tokens rest hwritten _
  obtain ⟨token, rfl, hkind⟩ := single_kind rfl hwritten
  exact ⟨token, rest, rfl, hkind⟩

end Parser

open ContractAudit.Parser

mutual

/-- A type is read as it is spelled. -/
theorem SpellType.reads {spec} {spelling : List Lexeme} :
    SpellType spec spelling → ReadsType spec spelling
  | .word span name hname => wordType_spelled hname span
  | .named span name params spelling hname hne hparams => by
      refine parenType_spelled hname fun start => ?_
      rw [parenTypeAfter, if_neg hne]
      refine Reads.bindClosed (fun _ htokens => (hparams.takes htokens).repeatWhile)
        (single_kind rfl) fun found hfound => closeType_spelled _ fun place => ?_
      rw [TypeSpec.erase, TypeSpec.erase, TypeSpec.eraseParams_eq, TypeSpec.eraseParams_eq, hfound]
  | .parenTuple span fields spelling hfields => by
      refine parenType_spelled (by unfold IsName; decide) fun start => ?_
      rw [parenTypeAfter, if_pos rfl]
      refine Reads.bindClosed (fun _ htokens => (hfields.takes htokens).repeatWhile)
        (single_kind rfl) fun found hfound => closeType_spelled _ fun place => ?_
      rw [TypeSpec.erase, TypeSpec.erase, TypeSpec.eraseFields_eq, TypeSpec.eraseFields_eq, hfound]
  | .braceTuple span fields spelling hfields => braceType_spelled hfields.reads

theorem SpellParams.takes {params spelling tokens} :
    SpellParams params spelling → lexemes tokens = spelling →
      TakesAll inBody (typeParam typeSpec) tokens Closed
        (·.map erase = params.map erase)
  | .nil, htokens => by
      rw [inLexemes.nil htokens]
      exact takesAll_nil fun _ => Closed.inBody
  | .size value lexeme rest spelling hsize hrest, htokens => by
      obtain ⟨token, others, rfl, rfl, hothers⟩ := (single_lexeme lexeme).uncons htokens
      have hcontinued : Continued [token] :=
        ⟨token, [], rfl, by rcases hsize.1 with hkind | hkind <;> simp [show token.kind =
          _ from hkind]⟩
      exact .cons (fun _ => hcontinued.starts) (typeParam_spelled_size hsize rfl)
        (fun _ _ => trivial)
        (hrest.takes hothers)
  | .type spec first rest spelling hspec hrest, htokens => by
      obtain ⟨used, others, rfl, hused, hothers⟩ := inLexemes.append htokens
      refine .cons (fun _ => Continued.starts ?_) (typeParam_spelled_type hspec hspec.reads hused)
        (fun _ _ => trivial) (hrest.takes hothers)
      obtain ⟨lexeme, later, rfl, hopens⟩ := hspec.opens
      obtain ⟨token, more, rfl, hkind, _⟩ := (single_kind rfl).uncons hused
      exact ⟨token, more, rfl, hkind ▸ (kind_ne hopens).2⟩

theorem SpellParenTypeFields.takes {fields spelling}
    {tokens} : SpellParenTypeFields fields spelling → lexemes tokens = spelling →
      TakesAll (·.sees .leftParen) (parenTypeField typeSpec) tokens Closed
        (·.map (fun field => (field.1, field.2.erase)) =
          fields.map fun field => (field.1, field.2.erase))
  | .nil, htokens => by
      rw [inLexemes.nil htokens]
      exact takesAll_nil fun _ => Closed.sees_leftParen
  | .cons name spec first rest spelling hname hspec hrest, htokens => by
      obtain ⟨used, others, rfl, hused, hothers⟩ := inLexemes.append htokens
      refine .cons (fun _ => ?_) (parenTypeField_spelled hname hspec.reads hused)
        (fun _ _ => trivial) (hrest.takes hothers)
      obtain ⟨token, more, rfl, hkind, _⟩ := (single_kind rfl).uncons hused
      exact starts_leftParen hkind

theorem SpellBraceTypeFields.reads {fields spelling} :
    SpellBraceTypeFields fields spelling → Reads inLexemes BraceClosed
      (separated (braceTypeField typeSpec)) spelling
      (TypeSpec.eraseFields · = TypeSpec.eraseFields fields)
  | .nil => by
      rw [separated_unfolds (braceTypeField_behaves typeSpec_behaves).goesOnward, commaRound]
      refine ask_bind_reads true (fun s tokens rest hwritten hahead hclosed => ?_)
        (reads_nil (pure_takes rfl))
      obtain ⟨closing, more, rfl, hkind⟩ := hclosed
      obtain rfl := inLexemes.nil hwritten
      simp [sees, current_eq hahead, hkind]
  | .last name spec first hname hspec => by
      rw [← append_nil first]
      exact braceTypeFields_spelled hname hspec.reads (.inl ⟨rfl, rfl⟩)
  | .cons name spec first rest spelling hname hspec hrest =>
      braceTypeFields_spelled hname hspec.reads (.inr ⟨_, rfl, hrest.reads⟩)

end

/-! ## Printed types -/

section Printed

variable {tokens : List Token} {marks inner : List Mark} (hscanned : Scanned tokens)

include hscanned

theorem Written.lexemes_word (h : Written (.word name :: marks) tokens) : IsName name ∧
    ∃ rest, Scanned rest ∧ Written marks rest ∧ lexemes tokens = .word name :: lexemes rest := by
  obtain ⟨token, rest, rfl, htoken, hrest⟩ := (single_word name).uncons h
  have hname := htoken.name
  rw [htoken.kind] at hname
  refine ⟨hname, rest, fun other hother => hscanned other (mem_cons_of_mem token hother), hrest, ?_⟩
  rw [lexemes_cons, Token.lexeme, htoken.kind, htoken.value, Lexeme.word]

theorem Written.lexemes_parens (h : Written (Mark.parens inner) tokens) : ∃ middle,
    Scanned middle ∧ Written inner middle ∧ lexemes tokens = Lexeme.parens (lexemes middle) := by
  obtain ⟨opening, rest, rfl, hopen, hrest⟩ := single_open.uncons h
  obtain ⟨middle, ending, rfl, hmiddle, hending⟩ := hrest.append_inv
  obtain ⟨closing, rfl, hclose⟩ := single_close hending
  have hvalue {token : Token} (c : Char) (htoken : token ∈ opening :: (middle ++ [closing]))
      (hkind : Scan.punctuation? c = some token.kind) : token.value = String.ofList [c] :=
    (hscanned token htoken).1.punctuation c hkind
  refine ⟨middle, fun token htoken => hscanned token (by simp [htoken]), hmiddle, ?_⟩
  simp [Lexeme.parens, Token.lexeme, hopen, hclose, hvalue '(' _ (by rw [hopen]; rfl),
    hvalue ')' _ (by rw [hclose]; rfl), Lexeme.leftParen, Lexeme.rightParen]

end Printed

mutual

theorem TypeSpec.spells : {spec : TypeSpec} → {tokens : List Token} → spec.printable = true →
    Scanned tokens → Written spec.marks tokens → SpellType spec (lexemes tokens)
  | .named span name params, tokens, h, hscanned, hwritten => by
      simp only [printable, Bool.and_eq_true, decide_eq_true_eq] at h
      rw [marks] at hwritten
      split at hwritten
      · next hempty =>
          obtain ⟨hname, rest, _, ⟨⟩, heq⟩ := hwritten.lexemes_word hscanned
          have hspell := word span name hname
          rw [ofWord, if_neg h.1.2] at hspell
          rw [heq, isEmpty_iff.mp hempty]
          exact hspell
      · obtain ⟨middle, hscanned, hmiddle, heq⟩ := hwritten.lexemes_parens hscanned
        obtain ⟨hname, rest, hscanned, hrest, heq'⟩ := hmiddle.lexemes_word hscanned
        rw [heq, heq']
        exact .named span name params _ hname h.1.2 (spellsParams h.2 hscanned hrest)
  | .tuple span fields, tokens, h, hscanned, hwritten => by
      obtain ⟨middle, hscanned, hmiddle, heq⟩ := hwritten.lexemes_parens hscanned
      obtain ⟨_, rest, hscanned, hrest, heq'⟩ := hmiddle.lexemes_word hscanned
      rw [heq, heq']
      exact .parenTuple span fields _ (spellsFields h hscanned hrest)

theorem TypeSpec.spellsParams : {params : List TypeParam} → {tokens : List Token} →
    printableParams params = true → Scanned tokens → Written (marksParams params) tokens →
      SpellParams params (lexemes tokens)
  | [], _, _, _, .nil => .nil
  | .size value :: rest, _, h, hscanned, .cons hsize hrest => by
      simp only [printableParams, Bool.and_eq_true] at h
      cases hsize with
      | size _ token hkind hread =>
          exact .size value token.lexeme rest _ ⟨.inl hkind, hread⟩
            (spellsParams h.2 (scanned_append.mp hscanned).2 hrest)
  | .type spec :: rest, _, h, hscanned, hwritten => by
      simp only [printableParams, Bool.and_eq_true] at h
      obtain ⟨used, others, rfl, hused, hothers⟩ := Written.append_inv hwritten
      rw [scanned_append] at hscanned
      rw [lexemes_append]
      exact .type spec _ rest _ (spells h.1 hscanned.1 hused)
        (spellsParams h.2 hscanned.2 hothers)

theorem TypeSpec.spellsFields : {fields : List (String × TypeSpec)} → {tokens : List Token} →
    printableFields fields = true → Scanned tokens → Written (marksFields fields) tokens →
      SpellParenTypeFields fields (lexemes tokens)
  | [], _, _, _, .nil => .nil
  | (name, spec) :: rest, _, h, hscanned, hwritten => by
      simp only [printableFields, Bool.and_eq_true] at h
      obtain ⟨used, others, rfl, hused, hothers⟩ := Written.append_inv hwritten
      rw [scanned_append] at hscanned
      obtain ⟨middle, hmiddle, hinner, heq⟩ := hused.lexemes_parens hscanned.1
      obtain ⟨hname, words, hwords, hspec, heq'⟩ := hinner.lexemes_word hmiddle
      rw [lexemes_append, heq, heq']
      exact .cons name spec _ rest _ hname (spells h.1.2 hwords hspec)
        (spellsFields h.2 hscanned.2 hothers)

end

theorem TypeSpec.opens_marks (spec : TypeSpec) : Opens spec.marks := by
  cases spec with
  | named span name params =>
      rw [marks]
      split
      · exact ⟨.word name, [], rfl, nofun⟩
      · exact opens_parens _
  | tuple span fields => exact opens_parens _

/-- A printed type is read back. -/
theorem Parser.typeSpec_reads (h : spec.printable = true) :
    Reads inMarks (fun _ => True) typeSpec spec.marks (·.erase = spec.erase) :=
  fun _ hwritten => takes_of_scanned fun hscanned => (spec.spells h hscanned hwritten).reads rfl

end ContractAudit
