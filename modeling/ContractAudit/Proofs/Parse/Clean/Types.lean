import ContractAudit.Proofs.Parse.Clean.Basic

/-!
# Declared types read without errors

The type parser reads a spelling of the type it gives. A nested type is read by the parser for one
level less, so the induction is on the levels; with no levels left there is always an error.
-/

namespace ContractAudit.Parser

open Parse State Lexeme

variable {numbered : Prop} {nested nested' : Parser TypeSpec} {keep : State → Prop}

theorem parenTypeField_follows (h : Follows numbered (Same SpellType) nested nested') :
    FollowsWhen numbered (·.sees .leftParen = true) Anchored (Same (Prepends SpellParenTypeFields))
      (parenTypeField nested) (parenTypeField nested') := by
  refine advance_open_follows.bind_same fun _ => (expectName_follows _).bind_same fun name =>
    h.bind_same fun spec => (pure_blind ?_).close
  rintro first hspec _ ⟨hname, rfl⟩ _ rfl
  refine ⟨rfl, rfl, fun rest lexemes hrest => ?_⟩
  simpa [parens] using SpellParenTypeFields.cons name spec first rest lexemes hname hspec hrest

def SpellBraceTypeField (field : String × TypeSpec) (lexemes : List Lexeme) : Prop :=
  ∃ first, IsName field.1 ∧ SpellType field.2 first ∧ lexemes = word field.1 :: colon :: first

theorem braceTypeField_follows (h : Follows numbered (Same SpellType) nested nested') :
    Follows numbered (Same SpellBraceTypeField) (braceTypeField nested)
      (braceTypeField nested') := by
  refine (expectName_follows _).bind_same fun name => (expect_follows (c := ':') rfl _).bind_same
    fun _ => h.bind_same fun spec => pure_follows (fun _ h => h) ?_
  rintro first hspec _ ⟨_, rfl⟩ _ ⟨hname, rfl⟩
  exact ⟨rfl, rfl, first, hname, hspec, by simp [colon]⟩

theorem integer_blind (text : String) :
    Blind numbered (fun value found => found = value ∧ Text.Numeral.read text = .ok value)
      (integer text) (integer text) := by
  intro s value s' t id past hrun hid
  obtain ⟨hread, rfl⟩ := integer_eq_done.mp hrun
  exact ⟨rfl, Nat.le_refl _, value, id, ⟨rfl, hread⟩, hid, integer_eq_done.mpr ⟨hread, rfl⟩⟩

section

variable (h : Follows numbered (Same SpellType) nested nested')

include h

theorem typeParam_follows :
    Follows numbered (Same (Prepends SpellParams)) (typeParam nested) (typeParam nested') := by
  refine peek_bind_follows fun token => ?_
  dsimp only
  split
  · next hkind =>
      simp only [Bool.or_eq_true, decide_eq_true_eq] at hkind
      refine (advance_follows (· = token) fun s h => h.2).bind_same fun found =>
        ((integer_blind found.value).bind fun value _ hvalue => pure_blind ?_).follows fun _ h => h
      obtain ⟨rfl, hread⟩ := hvalue
      rintro _ ⟨rfl, _, rfl⟩
      exact ⟨rfl, rfl, fun rest lexemes hrest => .size _ _ _ _ ⟨hkind, hread⟩ hrest⟩
  · refine (h.bind_same fun spec => pure_follows (fun _ h => h) ?_)
    intro used hspec
    rw [List.append_nil]
    exact ⟨rfl, rfl, fun rest lexemes hrest => .type _ _ _ _ hspec hrest⟩

theorem parenTypeAfter_follows (start : Location) (head : String) :
    Whole numbered (Same fun type lexemes =>
      IsName head → SpellType type (leftParen :: word head :: lexemes))
      (parenTypeAfter nested start head) (parenTypeAfter nested' start head) := by
  unfold parenTypeAfter
  split
  · next htuple =>
      subst htuple
      refine (repeatOpen_follows (lists_same .nil) (parenTypeField_follows h)).thenClose
        fun fields found => span_blind fun span => ?_
      rintro used _ ⟨rfl, rfl, hfields⟩
      exact ⟨rfl, rfl, fun _ => .parenTuple span _ used hfields⟩
  · next hnamed =>
      refine (repeatInBody_follows (lists_same .nil) ((typeParam_follows h).when fun _ h =>
        h)).thenClose
        fun params found => span_blind fun span => ?_
      rintro used _ ⟨rfl, rfl, hparams⟩
      exact ⟨rfl, rfl, fun hname => .named span head _ used hname hnamed hparams⟩

theorem parenType_follows :
    FollowsWhen numbered (·.sees .leftParen = true) keep (Same SpellType) (parenType nested)
      (parenType nested') := by
  refine advance_open_follows.bind_same fun opening => (expectName_follows _).bind_same fun head =>
    (parenTypeAfter_follows h opening.location head).when.imp ?_
  rintro _ used _ _ ⟨rfl, rfl, hrest⟩ _ ⟨hname, rfl⟩ _ rfl
  exact ⟨rfl, rfl, hrest hname⟩

theorem braceType_follows :
    FollowsWhen numbered (·.sees .leftBrace = true) keep (Same SpellType) (braceType nested)
      (braceType nested') := by
  have hlists : CommaLists (Same SpellBraceTypeField) (Same SpellBraceTypeFields) := by
    refine ⟨⟨rfl, rfl, .nil⟩, ?_, ?_⟩
    · rintro ⟨name, spec⟩ _ _ _ ⟨rfl, rfl, first, hname, hspec, rfl⟩
      exact ⟨rfl, rfl, .last name spec first hname hspec⟩
    · rintro ⟨name, spec⟩ _ _ _ values later _ _ ⟨rfl, rfl, first, hname, hspec, rfl⟩
        ⟨rfl, rfl, hrest⟩
      exact ⟨rfl, rfl, .cons name spec first _ later hname hspec hrest⟩
  refine (advance_punctuation_follows (c := '\x7b') rfl).bind_same fun opening =>
    separated_follows hlists (braceTypeField_follows h) fun fields _ => span_blind fun span => ?_
  rintro used _ ⟨rfl, rfl, hfields⟩ _ rfl
  exact ⟨rfl, rfl, .braceTuple span _ used hfields⟩

end

theorem badType_dirty : Dirty badType :=
  Dirty.after fun _ => reportHere_dirty fun _ => behaves_ite
    (.bind advance_behaves fun _ => .bind (spanFrom_behaves _) fun _ => pure_behaves _)
    (.bind (spanFrom_behaves _) fun _ => pure_behaves _)

theorem wordType_follows {token : Token} (hname : token.kind.isName = true) :
    FollowsWhen numbered (·.current = token) Anchored (Same SpellType) (wordType token)
      (wordType token) := by
  refine (advance_name_follows hname).bind_same fun _ => (span_blind fun span => ?_).follows
    fun _ h => h
  rintro _ ⟨_, hisName, rfl⟩
  exact ⟨rfl, rfl, .word span token.value hisName⟩

theorem typeSpecWith_follows (h : Follows numbered (Same SpellType) nested nested') :
    Follows numbered (Same SpellType) (typeSpecWith nested) (typeSpecWith nested') := by
  refine peek_bind_follows fun token => ?_
  have hsees {kind : TokenKind} (hkind : token.kind = kind) (s : State)
      (h : True ∧ s.current = token) : s.sees kind = true := by
    rw [State.sees_iff, h.2, hkind]
  cases hkind : token.kind with
  | identifier | keyword =>
      exact (wordType_follows (by simp [hkind, TokenKind.isName])).mono (fun _ h =>
        h.2) fun _ h => h
  | leftBrace => exact (braceType_follows h).mono (hsees hkind) fun _ h => h
  | leftParen => exact (parenType_follows h).mono (hsees hkind) fun _ h => h
  | _ => exact badType_dirty.follows badType_behaves

theorem typeSpecWithin_follows {levels levels' : Nat} (hlevels : levels ≤ levels') :
    Follows numbered (Same SpellType) (typeSpecWithin levels) (typeSpecWithin levels') := by
  induction levels generalizing levels' with
  | zero => exact badType_dirty.follows badType_behaves
  | succ levels ih =>
      obtain ⟨levels', rfl⟩ : ∃ n, levels' = n + 1 := ⟨levels' - 1, by omega⟩
      exact typeSpecWith_follows (ih (Nat.le_of_succ_le_succ hlevels))

theorem typeSpec_follows : Follows numbered (Same SpellType) typeSpec typeSpec :=
  follows_of_length typeSpecWithin typeSpecWithin fun _ _ => typeSpecWithin_follows

end ContractAudit.Parser
