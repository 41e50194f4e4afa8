import ContractAudit.Proofs.Parse.Accounted
import ContractAudit.Proofs.Parse.MatchArms
import ContractAudit.Proofs.Parse.RoundTrip
import ContractAudit.Proofs.Syntax.Unplace
import ContractAudit.Proofs.Token.Tiling

/-!
# Printed types are read back

A type is printed with tuples in braces, and without parentheses if it has no parameters. The text
of a value type is that of a declared type which denotes it.
-/

namespace ContractAudit

open List Lexeme Bool

namespace Scan

variable {text more rest : List Char} {spelling later : List Lexeme}

/-- That a text is read as some lexemes wherever it stands apart. -/
def Yields (text : List Char) (spelling : List Lexeme) : Prop :=
  ∀ (location : Location) (rest : List Char), Apart rest → ∃ tokens next,
    tokensFrom location (text ++ rest) = tokens ++ tokensFrom next rest ∧ lexemes tokens = spelling

theorem Apart.append (h : Apart text) (hrest : Apart rest) : Apart (text ++ rest) := by
  cases text with
  | nil => exact hrest
  | cons c text => exact h

theorem yields_nil : Yields [] [] :=
  fun location _ _ => ⟨[], location, rfl, rfl⟩

theorem Yields.append (h : Yields text spelling) (hmore : Yields more later) (hapart : Apart more) :
    Yields (text ++ more) (spelling ++ later) := by
  intro location rest hrest
  obtain ⟨tokens, next, htokens, rfl⟩ := h location (more ++ rest) (hapart.append hrest)
  obtain ⟨others, last, hothers, rfl⟩ := hmore next rest hrest
  exact ⟨tokens ++ others, last, by rw [append_assoc, htokens, hothers, append_assoc],
    lexemes_append tokens others⟩

theorem Yields.space (h : Yields text spelling) : Yields (' ' :: text) spelling := by
  intro location rest hrest
  rw [cons_append, tokensFrom_space]
  exact h _ rest hrest

theorem Yields.mark {c : Char} {kind : TokenKind} (h : Yields text spelling)
    (hkind : punctuation? c = some kind := by rfl)
    (hblank : Text.isBlank c = false := by decide) (hcomment : c ≠ ';' := by decide) :
    Yields (c :: text) (⟨kind, String.ofList [c]⟩ :: spelling) := by
  intro location rest hrest
  obtain ⟨tokens, next, htokens, rfl⟩ := h (location.after [c]) rest hrest
  refine ⟨⟨kind, String.ofList [c], String.ofList [c], location⟩ :: tokens, next, ?_, rfl⟩
  rw [show c :: text ++ rest = [c] ++ (text ++ rest) from rfl,
    tokensFrom_punctuation hkind hblank hcomment, htokens]
  rfl

theorem yields_word {name : String} (h : isPlainName name = true) :
    IsName name ∧ Yields name.toList [.word name] := by
  have hname (location : Location) (rest : List Char) (hrest : Apart rest) :=
    tokensFrom_word h hrest location
  refine ⟨(hname .start [] nofun).1, fun location rest hrest => ?_⟩
  refine ⟨[_], _, (hname location rest hrest).2, ?_⟩
  simp [Token.lexeme, Lexeme.word]

theorem yields_size (value : Int) : Yields (toString value).toList [⟨.int, toString value⟩] :=
  fun location _ hrest => ⟨[_], _, tokensFrom_int value hrest location, rfl⟩

end Scan

open Scan

/-! ## The text of a type -/

theorem apart_cons {c : Char} (rest : List Char) (h : isNameChar c = false ∧ c ≠ '"' := by decide) :
    Apart (c :: rest) := by
  rintro d ⟨⟩
  exact h

theorem spellSize_toString {value : Int} (h : isShort value = true) :
    SpellSize value ⟨.int, toString value⟩ :=
  ⟨.inl rfl, Text.Numeral.read_toString (of_decide_eq_true h)⟩

namespace TypeSpec

theorem apart_params (texts : List String) :
    Apart (texts.flatMap fun text => ' ' :: text.toList) := by
  cases texts with
  | nil => nofun
  | cons text texts => exact apart_cons _

mutual

/-- The text of a printable type is scanned as tokens that spell it. -/
theorem yields_pretty : (spec : TypeSpec) → spec.printable = true →
    ∃ spelling, Yields spec.pretty.toList spelling ∧ SpellType spec spelling
  | .named span name params, h => by
      simp only [printable, and_eq_true, decide_eq_true_eq] at h
      obtain ⟨⟨hname, hne⟩, hparams⟩ := h
      obtain ⟨hisName, hword⟩ := yields_word hname
      cases params with
      | nil =>
          have hspell := SpellType.word span name hisName
          rw [ofWord, if_neg hne] at hspell
          exact ⟨_, hword, hspell⟩
      | cons param rest =>
          obtain ⟨spelling, hyields, hspell⟩ := yields_params _ hparams
          refine ⟨_, ?_, .named span name _ spelling hisName hne hspell⟩
          have htext : (named span name (param :: rest)).pretty.toList = '(' :: (name.toList ++
              ((prettyParams (param :: rest)).flatMap (fun text => ' ' :: text.toList) ++
                [')'])) := by
            cases param <;> simp [pretty, prettyParams, intercalate_cons_eq, flatMap_map]
          rw [htext]
          refine (hword.append (hyields.append yields_nil.mark (apart_cons _)) ?_).mark
          exact (apart_params _).append (apart_cons _)
  | .tuple span fields, h => by
      obtain ⟨spelling, hyields, hspell⟩ := yields_fields fields h
      refine ⟨_, ?_, .braceTuple span fields spelling hspell⟩
      have htext : (tuple span fields).pretty.toList =
          '\x7b' :: ((", ".intercalate (prettyFields fields)).toList ++ ['\x7d']) := by
        simp [pretty]
      rw [htext]
      exact (hyields.append yields_nil.mark (apart_cons _)).mark

theorem yields_params : (params : List TypeParam) → printableParams params = true →
    ∃ spelling, Yields ((prettyParams params).flatMap fun text => ' ' :: text.toList) spelling ∧
      SpellParams params spelling
  | [], _ => ⟨[], yields_nil, .nil⟩
  | .size value :: rest, h => by
      simp only [printableParams, and_eq_true] at h
      obtain ⟨spelling, hyields, hspell⟩ := yields_params rest h.2
      refine ⟨_, ?_, .size value _ rest spelling (spellSize_toString h.1) hspell⟩
      exact ((yields_size value).append hyields (apart_params _)).space
  | .type spec :: rest, h => by
      simp only [printableParams, and_eq_true] at h
      obtain ⟨first, hfirst, hspec⟩ := yields_pretty spec h.1
      obtain ⟨spelling, hyields, hspell⟩ := yields_params rest h.2
      exact ⟨_, (hfirst.append hyields (apart_params _)).space,
        .type spec first rest spelling hspec hspell⟩

theorem yields_fields : (fields : List (String × TypeSpec)) → printableFields fields = true →
    ∃ spelling, Yields (", ".intercalate (prettyFields fields)).toList spelling ∧
      SpellBraceTypeFields fields spelling
  | [], _ => ⟨[], yields_nil, .nil⟩
  | (name, spec) :: rest, h => by
      simp only [printableFields, and_eq_true] at h
      obtain ⟨hname, hword⟩ := yields_word h.1.1
      obtain ⟨first, hfirst, hspec⟩ := yields_pretty spec h.1.2
      obtain ⟨spelling, hyields, hspell⟩ := yields_fields rest h.2
      have hfield : Yields (name ++ ": " ++ spec.pretty).toList (word name :: colon :: first) := by
        have htext : (name ++ ": " ++ spec.pretty).toList =
            name.toList ++ ':' :: ' ' :: spec.pretty.toList := by simp
        rw [htext]
        exact hword.append hfirst.space.mark (apart_cons _)
      cases rest with
      | nil => exact ⟨_, by simpa [prettyFields] using hfield, .last name spec first hname hspec⟩
      | cons next rest =>
          refine ⟨_, ?_, .cons name spec first _ spelling hname hspec hspell⟩
          have htext : (", ".intercalate (prettyFields ((name, spec) :: next :: rest))).toList =
              (name ++ ": " ++ spec.pretty).toList ++
                ',' :: ' ' :: (", ".intercalate (prettyFields (next :: rest))).toList := by
            simp [prettyFields]
          rw [htext]
          exact hfield.append hyields.space.mark (apart_cons _)

end

end TypeSpec

/-! ## Types that were read -/

open Text.Numeral in
theorem value_lt {digits : List Nat} (h : ∀ digit ∈ digits, digit < 10) (total : Nat) :
    digits.foldl (fun total digit => 10 * total + digit) total <
      (total + 1) * 10 ^ digits.length := by
  induction digits generalizing total with
  | nil => simp
  | cons digit rest ih =>
      have hdigit := h digit mem_cons_self
      rw [foldl_cons, length_cons, Nat.pow_succ', ← Nat.mul_assoc]
      refine (ih (fun d hd => h d (mem_cons_of_mem _ hd)) _).trans_le (Nat.mul_le_mul_right _ ?_)
      omega

theorem isShort_of_read {text : String} {value : Int} (h : Text.Numeral.read text = .ok value) :
    isShort value = true := by
  unfold Text.Numeral.read at h
  simp only at h
  split at h
  · cases h
  split at h
  · cases h
  split at h
  · cases h
  next hlength _ =>
  simp only [Except.ok.injEq] at h
  generalize hdigits : filterMap Text.decimalValue? _ = digits at h hlength
  have hsmall : ∀ digit ∈ digits, digit < 10 := by
    intro digit hdigit
    rw [← hdigits] at hdigit
    obtain ⟨c, _, hc⟩ := mem_filterMap.mp hdigit
    obtain ⟨range, _, rfl⟩ := Option.map_eq_some_iff.mp hc
    exact Nat.mod_lt _ (by decide)
  have hvalue : value.natAbs = Text.Numeral.value digits := by
    rw [← h]
    split <;> simp
  rw [isShort, decide_eq_true_eq, Nat.toString_eq_ofList_toDigits, String.length_ofList,
    Nat.length_toDigits_le_iff (by decide) (by decide), hvalue]
  have hlt := value_lt hsmall 0
  rw [Nat.zero_add, Nat.one_mul] at hlt
  exact hlt.trans_le (Nat.pow_le_pow_right (by decide) (by omega))

/-- That the names among some lexemes are read as names by themselves. -/
def Words (spelling : List Lexeme) : Prop :=
  ∀ lexeme ∈ spelling, lexeme.kind.isName = true → isPlainName lexeme.value = true

theorem words_tokenize (source : String) : Words (lexemes (tokenize source).dropLast) := by
  intro lexeme hlexeme hname
  obtain ⟨token, htoken, rfl⟩ := mem_map.mp hlexeme
  exact isPlainName_of_isName htoken hname

variable {spelling later : List Lexeme} {name : String}

@[simp]
theorem words_append : Words (spelling ++ later) ↔ Words spelling ∧ Words later := by
  simp [Words, or_imp, forall_and]

theorem words_word : Words (word name :: spelling) ↔
    (IsName name → isPlainName name = true) ∧ Words spelling := by
  simp [Words, IsName, word]

@[simp]
theorem words_parens : Words (parens spelling) ↔ Words spelling := by
  simp [Words, parens, or_imp, forall_and, leftParen, rightParen, TokenKind.isName]

@[simp]
theorem words_braces : Words (Lexeme.braces spelling) ↔ Words spelling := by
  simp [Words, Lexeme.braces, or_imp, forall_and, leftBrace, rightBrace, TokenKind.isName]

theorem words_separator {lexeme : Lexeme} (h : lexeme.kind.isName = false) :
    Words (lexeme :: spelling) ↔ Words spelling := by
  simp [Words, h]

open TypeSpec (printableParams printableFields)

mutual

theorem SpellType.printable {spec} {spelling : List Lexeme} :
    SpellType spec spelling → Words spelling → spec.printable = true
  | .word span name hname, hwords => by
      rw [words_word] at hwords
      unfold TypeSpec.ofWord
      split
      · rfl
      · next hne => simp [TypeSpec.printable, printableParams, hwords.1 hname, hne]
  | .named span name params spelling hname hne hparams, hwords => by
      rw [words_parens, words_word] at hwords
      simp [TypeSpec.printable, hwords.1 hname, hne, hparams.printable hwords.2]
  | .parenTuple span fields spelling hfields, hwords => by
      rw [words_parens, words_word] at hwords
      exact hfields.printable hwords.2
  | .braceTuple span fields spelling hfields, hwords =>
      hfields.printable (words_braces.mp hwords)

theorem SpellParams.printable {params} {spelling : List Lexeme} :
    SpellParams params spelling → Words spelling → printableParams params = true
  | .nil, _ => rfl
  | .size value lexeme rest spelling hsize hrest, hwords => by
      have hrest := hrest.printable fun other hother => hwords other (mem_cons_of_mem _ hother)
      simp [printableParams, isShort_of_read hsize.2, hrest]
  | .type spec first rest spelling hspec hrest, hwords => by
      rw [words_append] at hwords
      simp [printableParams, hspec.printable hwords.1, hrest.printable hwords.2]

theorem SpellParenTypeFields.printable {fields} {spelling : List Lexeme} :
    SpellParenTypeFields fields spelling → Words spelling → printableFields fields = true
  | .nil, _ => rfl
  | .cons name spec first rest spelling hname hspec hrest, hwords => by
      rw [words_append, words_parens, words_word] at hwords
      simp [printableFields, hwords.1.1 hname, hspec.printable hwords.1.2,
        hrest.printable hwords.2]

theorem SpellBraceTypeFields.printable {fields} {spelling : List Lexeme} :
    SpellBraceTypeFields fields spelling → Words spelling → printableFields fields = true
  | .nil, _ => rfl
  | .last name spec first hname hspec, hwords => by
      rw [words_word, words_separator rfl] at hwords
      simp [printableFields, hwords.1 hname, hspec.printable hwords.2]
  | .cons name spec first rest spelling hname hspec hrest, hwords => by
      rw [words_word, words_separator rfl, words_append, words_separator rfl] at hwords
      simp [printableFields, hwords.1 hname, hspec.printable hwords.2.1,
        hrest.printable hwords.2.2]

end

def Form.types : Form → List TypeSpec
  | .function definition => definition.params.map Parameter.type
  | .map _ _ keyType valueType => [keyType, valueType]
  | .dataVar _ _ type _ => [type]
  | .nonFungible _ _ assetType => [assetType]
  | .trait _ _ functions =>
      functions.flatMap fun function => function.argTypes ++ [function.returnType]
  | .constant .. | .fungible .. | .useTrait .. | .implTrait .. => []

theorem SpellParameters.printable {params} (h : SpellParameters params spelling)
    (hwords : Words spelling) : ∀ param ∈ params, param.type.printable = true := by
  induction h with
  | nil => nofun
  | cons name type span first rest lexemes hname htype hrest ih =>
      rw [words_append, words_parens, words_word] at hwords
      exact forall_mem_cons.mpr ⟨htype.printable hwords.1.2, ih hwords.2⟩

theorem SpellTypes.printable {specs} (h : SpellTypes specs spelling) (hwords : Words spelling) :
    ∀ spec ∈ specs, spec.printable = true := by
  induction h with
  | nil => nofun
  | cons spec first rest lexemes hspec hrest ih =>
      rw [words_append] at hwords
      exact forall_mem_cons.mpr ⟨hspec.printable hwords.1, ih hwords.2⟩

theorem SpellTraitFunctions.printable {functions} (h : SpellTraitFunctions functions spelling)
    (hwords : Words spelling) :
    ∀ function ∈ functions, ∀ spec ∈ function.argTypes ++ [function.returnType],
      spec.printable = true := by
  induction h with
  | nil => nofun
  | cons name argTypes args returnType result span rest lexemes hname hargs hresult hrest ih =>
      simp only [words_append, words_parens, words_word] at hwords
      refine forall_mem_cons.mpr ⟨fun spec hspec => ?_, ih hwords.2⟩
      rcases mem_append.mp hspec with hspec | hspec
      · exact hargs.printable hwords.1.2.1 spec hspec
      · rw [mem_singleton.mp hspec]
        exact hresult.printable hwords.1.2.2

theorem SpellForm.printable {form : Form} (h : SpellForm form spelling) (hwords : Words spelling) :
    ∀ spec ∈ form.types, spec.printable = true := by
  cases h with
  | function _ _ _ _ _ _ _ _ hparams =>
      simp only [words_parens, words_word, words_append] at hwords
      simpa [Form.types] using hparams.printable hwords.2.1.2
  | map _ _ _ _ _ _ _ hkey hvalue =>
      simp only [words_parens, words_word, words_append] at hwords
      simp [Form.types, hkey.printable hwords.2.2.1, hvalue.printable hwords.2.2.2]
  | dataVar _ _ _ _ _ _ _ htype =>
      simp only [words_parens, words_word, words_append] at hwords
      simp [Form.types, htype.printable hwords.2.2.1]
  | nonFungible _ _ _ _ _ htype =>
      simp only [words_parens, words_word] at hwords
      simp [Form.types, htype.printable hwords.2.2]
  | trait _ _ _ _ _ hfunctions =>
      simp only [words_parens, words_word] at hwords
      intro spec hspec
      obtain ⟨function, hfunction, hspec⟩ := mem_flatMap.mp hspec
      exact hfunctions.printable hwords.2.2 function hfunction spec hspec
  | constant | fungible | useTrait | implTrait => nofun

/-- The types that a type is made of, itself among them. -/
inductive TypeSpec.Within (inner : TypeSpec) : TypeSpec → Prop where
  | self : Within inner inner
  | param {spec span name params} :
      Within inner spec → .type spec ∈ params → Within inner (.named span name params)
  | field {spec span name fields} :
      Within inner spec → (name, spec) ∈ fields → Within inner (.tuple span fields)

/-- That a type is written in a text that parses without errors. -/
def TypeSpec.ReadFrom (spec : TypeSpec) (source : String) : Prop :=
  ∃ result, parse source = .ok result ∧ result.errors = [] ∧
    ∃ form ∈ result.contract.body, ∃ declared ∈ form.types, spec.Within declared

theorem TypeSpec.Within.printable {inner outer : TypeSpec} (h : inner.Within outer)
    (houter : outer.printable = true) : inner.printable = true := by
  induction h with
  | self => exact houter
  | param _ hmem ih =>
      simp only [TypeSpec.printable, printableParams_eq, and_eq_true, all_eq_true] at houter
      exact ih (houter.2 _ hmem)
  | field _ hmem ih =>
      simp only [TypeSpec.printable, printableFields_eq, and_eq_true, all_eq_true] at houter
      exact ih (houter _ hmem).2

theorem TypeSpec.ReadFrom.printable {spec : TypeSpec} {source : String} (h : spec.ReadFrom source) :
    spec.printable = true := by
  obtain ⟨result, hparse, hclean, form, hform, declared, hdeclared, hwithin⟩ := h
  have hforms {forms spelling} (h : SpellForms forms spelling) (hwords : Words spelling) :
      ∀ form ∈ forms, ∀ spec ∈ form.types, spec.printable = true := by
    induction h with
    | nil => nofun
    | cons form first rest lexemes hform hrest ih =>
        rw [words_append] at hwords
        exact forall_mem_cons.mpr ⟨hform.printable hwords.1, ih hwords.2⟩
  have hspells := spellContract_of_parse hparse hclean
  exact hwithin.printable (hforms hspells (words_tokenize source) form hform declared hdeclared)

/-! ## Reading a type again -/

/-- That a text is read without errors where the type of a data variable stands. -/
def ReadsAs (text : String) (type : TypeSpec) : Prop :=
  ∃ result info initial, parse ("(define-data-var x " ++ text ++ " 0)") = .ok result ∧
    result.errors = [] ∧ result.contract.body = [.dataVar info "x" type initial]

namespace Parser

variable {text : String} {spec : TypeSpec} {opening keyword zero closing : Token}
  {used : List Token} {token : Token}

theorem expr_takes_zero (h : zero.lexeme = ⟨.int, "0"⟩) :
    Takes expr [zero] Undotted fun _ => True := by
  have hkind : zero.kind = .int := congrArg Lexeme.kind h
  have hvalue : zero.value = "0" := congrArg Lexeme.value h
  have hwritten : Written [.literal (.int 0)] ([zero] ++ []) := by
    refine .cons (.literal _ zero (by rw [hkind]; rfl) ?_) .nil
    simp only [literalValue, hkind, hvalue]
    rfl
  have hprintable : (Expr.literal .nowhere (.int 0)).printable maxNesting = true := by decide
  exact (expr_reads hprintable hwritten).imp fun _ _ => trivial

theorem dataVar_takes (hspell : SpellType spec (lexemes used))
    (hopening : opening.kind = .leftParen) (hkeyword : keyword.lexeme = .word "define-data-var")
    (htoken : token.kind.isName = true ∧ token.value = "x") (hzero : zero.lexeme = ⟨.int, "0"⟩)
    (hclosing : closing.kind = .rightParen) :
    Takes (definition expr) (opening :: keyword :: token :: (used ++ [zero, closing]))
      (fun _ => True)
      fun form => ∃ info type initial, form = .dataVar info "x" type initial ∧
        type.erase = spec.erase := by
  refine definition_takes hopening (congrArg Lexeme.kind hkeyword) ?_
  rw [show keyword.value = "define-data-var" from congrArg Lexeme.value hkeyword]
  have hname : Takes _ [token] (fun _ => True) _ := expectName_takes "variable name" htoken.1
  refine hname.bind (fun name hname => ?_) fun _ _ => trivial
  refine (hspell.reads rfl).bind (fun type htype => ?_) fun _ _ => trivial
  change Takes _ ([zero] ++ [closing]) _ _
  refine (expr_takes_zero hzero).bind
    (fun initial _ => closeNode_takes hclosing fun info => ?_) ?_
  · exact ⟨info, type, initial, by rw [hname, htoken.2], htype⟩
  · rintro rest _ _ ⟨⟩
    simp [hclosing]

end Parser

open ContractAudit.Parser in
theorem exists_readsAs {text : String} {spec : TypeSpec} (h : Yields text.toList spelling)
    (hspell : SpellType spec spelling) : ∃ type, ReadsAs text type ∧ type.erase = spec.erase := by
  obtain ⟨_, hkeyword⟩ := yields_word (by decide : isPlainName "define-data-var" = true)
  obtain ⟨hname, hx⟩ := yields_word (by decide : isPlainName "x" = true)
  have hzero : Yields ['0', ')'] [⟨.int, "0"⟩, rightParen] :=
    (yields_size 0).append (yields_nil.mark (c := ')')) (apart_cons _)
  have hyields : Yields ("(define-data-var x " ++ text ++ " 0)").toList (leftParen ::
      word "define-data-var" :: word "x" :: (spelling ++ [⟨.int, "0"⟩, rightParen])) := by
    have htext : ("(define-data-var x " ++ text ++ " 0)").toList =
        '(' :: ("define-data-var".toList ++
          ' ' :: ("x".toList ++ ' ' :: (text.toList ++ ' ' :: ['0', ')']))) := by
      simp
    rw [htext]
    exact (hkeyword.append (hx.append (h.append hzero.space (apart_cons _)).space
      (apart_cons _)).space (apart_cons _)).mark
  obtain ⟨tokens, next, htokens, hlexemes⟩ := hyields .start [] nofun
  rw [append_nil, tokensFrom_nil, append_nil] at htokens
  obtain ⟨opening, _, rfl, hopening, hlexemes⟩ := (single_kind rfl).uncons hlexemes
  obtain ⟨keyword, _, rfl, hkeyword, hlexemes⟩ := (single_lexeme _).uncons hlexemes
  obtain ⟨token, _, rfl, htoken, hlexemes⟩ := (single_name hname).uncons hlexemes
  obtain ⟨used, _, rfl, rfl, hlast⟩ := inLexemes.append hlexemes
  obtain ⟨zero, _, rfl, hzero, hlast⟩ := (single_lexeme _).uncons hlast
  obtain ⟨closing, rfl, hclosing⟩ := single_kind rfl hlast
  have hsource := tokenize_eq ("(define-data-var x " ++ text ++ " 0)")
  rw [dropLast_tokenize, pieces, show filterMap _ _ = _ from htokens] at hsource
  obtain ⟨result, _, hparse, hclean, hbody, info, type, initial, rfl, htype⟩ :=
    parse_of_definition hsource (cons_ne_nil _ _)
      (dataVar_takes hspell hopening hkeyword htoken hzero hclosing)
  exact ⟨type, ⟨result, info, initial, hparse, hclean, hbody⟩, htype⟩

/-- A type that was read without errors is read again from its printed text, and denotes the same
values. -/
theorem readsAs_pretty {spec : TypeSpec} {source : String} (h : spec.ReadFrom source) :
    ∃ type, ReadsAs spec.pretty type ∧ type.erase = spec.erase ∧
      type.toValueType = spec.toValueType := by
  obtain ⟨spelling, hyields, hspell⟩ := spec.yields_pretty h.printable
  obtain ⟨type, hreads, htype⟩ := exists_readsAs hyields hspell
  exact ⟨type, hreads, htype, by rw [← type.toValueType_erase, htype, spec.toValueType_erase]⟩

theorem exists_readFrom {source : String} {chars : List Char} {p : TypeSpec → Prop}
    [DecidablePred p] (hsource : source = String.ofList chars)
    (h : (parseTokens (tokensOf chars)).toOption.any (fun result => decide (result.errors = [] ∧
      ∃ form ∈ result.contract.body, ∃ spec ∈ form.types, p spec)) = true) :
    ∃ spec : TypeSpec, spec.ReadFrom source ∧ p spec := by
  obtain ⟨result, hparse, hclean, form, hform, spec, hspec, hp⟩ := exists_parse hsource h
  exact ⟨spec, ⟨result, hparse, hclean, form, hform, spec, hspec, .self⟩, hp⟩

def nestedTypes : String :=
  "(define-map m (tuple (a (list u5 int))) (optional \x7bb: (buff),\x7d))"

theorem readsAs_pretty_nested : ∃ spec : TypeSpec, spec.ReadFrom nestedTypes ∧
    spec.pretty = "\x7ba: (list 5 int)\x7d" ∧ ∃ type, ReadsAs spec.pretty type ∧
      type.erase = spec.erase ∧ type.toValueType = spec.toValueType := by
  obtain ⟨spec, hread, hpretty⟩ : ∃ spec : TypeSpec, spec.ReadFrom nestedTypes ∧
      spec.pretty = "\x7ba: (list 5 int)\x7d" := exists_readFrom rfl (by decide +kernel)
  exact ⟨spec, hread, hpretty, readsAs_pretty hread⟩

/-! ## The text of a value type -/

namespace ValueType

mutual

def depth : ValueType → Nat
  | ⟨_, children, fields, _, _⟩ => max (childDepth children) (fieldDepth fields)

def childDepth : List ValueType → Nat
  | [] => 0
  | type :: rest => max (type.depth + 1) (childDepth rest)

def fieldDepth : List (String × ValueType) → Nat
  | [] => 0
  | (_, type) :: rest => max (type.depth + 1) (fieldDepth rest)

end

/-- That a type is written as a declared type that denotes it, at every level it fits in. -/
def Renders (type : ValueType) : Prop :=
  ∀ level, type.depth + level ≤ maxRenderDepth → ∃ spec : TypeSpec,
    type.renderAt level = .ok spec.pretty ∧ spec.printable = true ∧ spec.toValueType = type

theorem isShort_firstSize : (params : List TypeParam) → printableParams params = true →
    ∀ value ∈ TypeSpec.firstSize? params, isShort value = true
  | [], _ => nofun
  | .size _ :: _, h => by
      rintro _ ⟨⟩
      exact (and_eq_true_iff.mp h).1
  | .type _ :: rest, h => isShort_firstSize rest (and_eq_true_iff.mp h).2

theorem exists_specs {level : Nat} : {children : List ValueType} →
    (∀ type ∈ children, type.Renders) → childDepth children + level ≤ maxRenderDepth →
    ∃ specs : List TypeSpec, specs.map TypeSpec.toValueType = children ∧
      renderSome (level + 1) children.length children = .ok (specs.map TypeSpec.pretty) ∧
      ∀ spec ∈ specs, spec.printable = true
  | [], _, _ => ⟨[], rfl, rfl, nofun⟩
  | type :: rest, h, hlevel => by
      rw [childDepth] at hlevel
      obtain ⟨spec, hrender, hprintable, rfl⟩ := h type mem_cons_self (level + 1) (by omega)
      obtain ⟨specs, rfl, hrest, hall⟩ :=
        exists_specs (fun type hmem => h type (mem_cons_of_mem _ hmem)) (by omega : _ + level ≤ _)
      refine ⟨spec :: specs, rfl, ?_, forall_mem_cons.mpr ⟨hprintable, hall⟩⟩
      rw [length_cons, renderSome, hrender, hrest]
      rfl

theorem firstSize?_types : (specs : List TypeSpec) → TypeSpec.firstSize? (specs.map .type) = none
  | [] => rfl
  | _ :: rest => firstSize?_types rest

theorem componentTypes_types : (specs : List TypeSpec) →
    TypeSpec.componentTypes (specs.map .type) = specs.map TypeSpec.toValueType
  | [] => rfl
  | _ :: rest => congrArg _ (componentTypes_types rest)

theorem renders_named (kind : TypeKind) {children : List ValueType} {size : Option Int}
    (hname : isPlainName kind.label = true ∧ kind.label ≠ "tuple")
    (htype : TypeSpec.resolve kind.label size children = ⟨kind, children, [], size, ""⟩)
    (hcount : shownChildren kind = children.length)
    (htext : ∀ specs : List TypeSpec, specs.length = children.length →
      assemble kind (specs.map TypeSpec.pretty) [] size "" =
        .ok (TypeSpec.named .nowhere kind.label (size.toList.map .size ++ specs.map .type)).pretty)
    (hsize : ∀ value ∈ size, isShort value = true) (h : ∀ type ∈ children, type.Renders) :
    Renders ⟨kind, children, [], size, ""⟩ := by
  intro level hlevel
  rw [depth, fieldDepth] at hlevel
  obtain ⟨specs, rfl, hrender, hall⟩ := exists_specs h (by omega : _ + level ≤ _)
  refine ⟨.named .nowhere kind.label (size.toList.map .size ++ specs.map .type), ?_, ?_, ?_⟩
  · rw [← htext specs (length_map _).symm, renderAt, if_neg (by omega), hcount, hrender]
    change (if kind = .tuple then _ else _) = _
    split <;> rfl
  · have hparams : printableParams (size.toList.map .size ++ specs.map .type) = true := by
      rw [TypeSpec.printableParams_eq, all_append, and_eq_true_iff, all_map, all_map]
      exact ⟨all_eq_true.mpr fun value hmem => hsize value (Option.mem_toList.mp hmem),
        all_eq_true.mpr hall⟩
    simp [TypeSpec.printable, hname, hparams]
  · rw [← htype, TypeSpec.toValueType]
    cases size with
    | none =>
        exact congrArg₂ (TypeSpec.resolve _) (firstSize?_types specs) (componentTypes_types specs)
    | some value => exact congrArg (TypeSpec.resolve _ _) (componentTypes_types specs)

theorem renders_word (kind : TypeKind) {size : Option Int}
    (hname : isPlainName kind.label = true ∧ kind.label ≠ "tuple")
    (htype : TypeSpec.resolve kind.label size [] = ⟨kind, [], [], size, ""⟩)
    (hcount : shownChildren kind = 0)
    (htext : assemble kind [] [] size "" =
      .ok (TypeSpec.named .nowhere kind.label (size.toList.map .size)).pretty)
    (hsize : ∀ value ∈ size, isShort value = true) : Renders ⟨kind, [], [], size, ""⟩ := by
  refine renders_named kind hname htype hcount (fun specs hlength => ?_) hsize nofun
  rw [length_eq_zero_iff.mp hlength, map_nil, map_nil, append_nil, htext]

theorem resolve_trait {name : String}
    (h : ("<".isPrefixOf name && name.toList.getLast? = some '>') = true)
    (size : Option Int) (inner : List ValueType) :
    TypeSpec.resolve name size inner = { ofKind .trait with name := name } := by
  have hlast := of_decide_eq_true (and_eq_true_iff.mp h).2
  unfold TypeSpec.resolve
  split <;> first | exact if_pos h | simp at hlast

theorem renders_trait {name : String} (hname : isPlainName name = true)
    (h : ("<".isPrefixOf name && name.toList.getLast? = some '>') = true) :
    Renders ⟨.trait, [], [], none, name⟩ := by
  have hlast := of_decide_eq_true (and_eq_true_iff.mp h).2
  have hne : name ≠ "tuple" := by
    rintro rfl
    simp at hlast
  have hnonempty : ¬ name.isEmpty = true := by
    intro hempty
    simp [String.isEmpty_iff.mp hempty] at hlast
  intro level hlevel
  refine ⟨.named .nowhere name [], ?_, ?_, resolve_trait h none []⟩
  · rw [renderAt, if_neg (by omega)]
    exact congrArg Except.ok (if_neg hnonempty)
  · simp [TypeSpec.printable, printableParams, hname, hne]

/-- A named type renders if what it is made of does. -/
theorem renders_resolve {name : String} {size : Option Int} {inner : List ValueType}
    (hname : isPlainName name = true) (hsize : ∀ value ∈ size, isShort value = true)
    (hinner : ∀ type ∈ inner, type.Renders) : (TypeSpec.resolve name size inner).Renders := by
  have huint : Renders .uint := renders_word .uint (by decide) rfl rfl rfl nofun
  fun_cases TypeSpec.resolve name size inner
  case case1 => exact huint
  case case2 => exact renders_word .int (by decide) rfl rfl rfl nofun
  case case3 => exact renders_word .bool (by decide) rfl rfl rfl nofun
  case case4 => exact renders_word .principal (by decide) rfl rfl rfl nofun
  case case5 => exact renders_word .buff (by decide) rfl rfl (by cases size <;> rfl) hsize
  case case6 => exact renders_word .stringAscii (by decide) rfl rfl (by cases size <;> rfl) hsize
  case case7 => exact renders_word .stringUtf8 (by decide) rfl rfl (by cases size <;> rfl) hsize
  case case8 element rest =>
    refine renders_named .list (by decide) rfl rfl (fun specs hlength => ?_) hsize ?_
    · obtain ⟨spec, rfl⟩ := length_eq_one_iff.mp hlength
      cases size <;> simp [assemble, TypeSpec.pretty, TypeSpec.prettyParams, TypeKind.label,
        toString, String.append_assoc]
    · exact forall_mem_singleton.mpr (forall_mem_cons.mp hinner).1
  case case9 element rest =>
    refine renders_named .optional (by decide) rfl rfl (fun specs hlength => ?_) nofun ?_
    · obtain ⟨spec, rfl⟩ := length_eq_one_iff.mp hlength
      simp [assemble, TypeSpec.pretty, TypeSpec.prettyParams, TypeKind.label, ofKind, toString]
    · exact forall_mem_singleton.mpr (forall_mem_cons.mp hinner).1
  case case10 ok err rest =>
    refine renders_named .response (by decide) rfl rfl (fun specs hlength => ?_) nofun ?_
    · obtain ⟨spec, spec', rfl⟩ := length_eq_two.mp hlength
      simp [assemble, TypeSpec.pretty, TypeSpec.prettyParams, TypeKind.label, ofKind, toString,
        String.append_assoc]
    · obtain ⟨hok, hrest⟩ := forall_mem_cons.mp hinner
      exact forall_mem_cons.mpr ⟨hok, forall_mem_singleton.mpr (forall_mem_cons.mp hrest).1⟩
  case case11 htrait _ _ _ _ _ _ _ _ _ _ =>
    rw [if_pos htrait]
    exact renders_trait hname htrait
  case case12 hother _ _ _ _ _ _ _ _ _ _ =>
    rw [if_neg hother]
    exact huint

mutual

/-- The type that a declared type denotes is written out as one that denotes the same. -/
theorem renders_toValueType : (spec : TypeSpec) → spec.printable = true → spec.toValueType.Renders
  | .named _ name params, h => by
      simp only [TypeSpec.printable, and_eq_true, decide_eq_true_eq] at h
      rw [TypeSpec.toValueType]
      exact renders_resolve h.1.1 (isShort_firstSize params h.2) (renders_componentTypes params h.2)
  | .tuple _ fields, h => by
      intro level hlevel
      simp only [TypeSpec.toValueType, tupleOf, ofKind, depth, childDepth] at hlevel ⊢
      obtain ⟨others, hrender, hprintable, htypes⟩ := renders_fieldTypes fields h level (by omega)
      refine ⟨.tuple .nowhere others, ?_, hprintable, ?_⟩
      · rw [renderAt, if_neg (by omega), hrender]
        rfl
      · rw [TypeSpec.toValueType, htypes, tupleOf, ofKind]

theorem renders_componentTypes : (params : List TypeParam) → printableParams params = true →
    ∀ type ∈ TypeSpec.componentTypes params, type.Renders
  | [], _ => nofun
  | .size _ :: rest, h => renders_componentTypes rest (and_eq_true_iff.mp h).2
  | .type spec :: rest, h => forall_mem_cons.mpr
    ⟨renders_toValueType spec (and_eq_true_iff.mp h).1,
      renders_componentTypes rest (and_eq_true_iff.mp h).2⟩

theorem renders_fieldTypes : (fields : List (String × TypeSpec)) → printableFields fields = true →
    ∀ level, fieldDepth (TypeSpec.fieldTypes fields) + level ≤ maxRenderDepth → ∃ others,
      renderFields (level + 1) (TypeSpec.fieldTypes fields) = .ok (TypeSpec.prettyFields others) ∧
        printableFields others = true ∧ TypeSpec.fieldTypes others = TypeSpec.fieldTypes fields
  | [], _, _, _ => ⟨[], rfl, rfl, rfl⟩
  | (name, spec) :: rest, h, level, hlevel => by
      simp only [printableFields, and_eq_true] at h
      rw [TypeSpec.fieldTypes, fieldDepth] at hlevel
      obtain ⟨other, hfirst, hother, htype⟩ := renders_toValueType spec h.1.2 (level + 1) (by omega)
      obtain ⟨others, hrest, hothers, htypes⟩ := renders_fieldTypes rest h.2 level (by omega)
      refine ⟨(name, other) :: others, ?_, ?_, ?_⟩
      · rw [TypeSpec.fieldTypes, renderFields, hfirst, hrest]
        rfl
      · simp [printableFields, h.1.1, hother, hothers]
      · rw [TypeSpec.fieldTypes, TypeSpec.fieldTypes, htype, htypes]

end

end ValueType

theorem ReadsAs.unique {text : String} {type type' : TypeSpec} (h : ReadsAs text type)
    (h' : ReadsAs text type') : type = type' := by
  obtain ⟨result, info, initial, hparse, -, hbody⟩ := h
  obtain ⟨_, info', initial', hparse', -, hbody'⟩ := h'
  obtain rfl := Except.ok.inj (hparse.symm.trans hparse')
  injection (cons_eq_cons.mp (hbody.symm.trans hbody')).1

/-- The text of the value type of a declared type, if it is not nested deeper than is written out,
is read as a declared type with that value type; so no two of them have one text. -/
theorem readsAs_render {spec : TypeSpec} {source : String} (h : spec.ReadFrom source)
    (hdepth : spec.toValueType.depth ≤ ValueType.maxRenderDepth) :
    ∃ text, spec.toValueType.render = .ok text ∧
      (∃ type, ReadsAs text type ∧ type.toValueType = spec.toValueType) ∧
      ∀ (other : TypeSpec) (source' : String), other.ReadFrom source' →
        other.toValueType.depth ≤ ValueType.maxRenderDepth →
        other.toValueType.render = .ok text → other.toValueType = spec.toValueType := by
  have hreads {spec : TypeSpec} {source : String} (h : spec.ReadFrom source)
      (hdepth : spec.toValueType.depth ≤ ValueType.maxRenderDepth) : ∃ text type,
      spec.toValueType.render = .ok text ∧ ReadsAs text type ∧
        type.toValueType = spec.toValueType := by
    obtain ⟨shown, hrender, hprintable, hshown⟩ :=
      ValueType.renders_toValueType spec h.printable 0 hdepth
    obtain ⟨spelling, hyields, hspell⟩ := shown.yields_pretty hprintable
    obtain ⟨type, htype, herase⟩ := exists_readsAs hyields hspell
    exact ⟨_, type, hrender, htype,
      by rw [← type.toValueType_erase, herase, shown.toValueType_erase, hshown]⟩
  obtain ⟨text, type, hrender, htype, hvalue⟩ := hreads h hdepth
  refine ⟨text, hrender, ⟨type, htype, hvalue⟩, fun other source' hother hdepth' hrender' => ?_⟩
  obtain ⟨_, type', hrender₁, htype', hvalue'⟩ := hreads hother hdepth'
  obtain rfl := Except.ok.inj (hrender'.symm.trans hrender₁)
  rw [← hvalue, ← hvalue', htype.unique htype']

theorem readsAs_render_nested : ∃ spec : TypeSpec, spec.ReadFrom nestedTypes ∧
    spec.toValueType.render = .ok "(optional \x7bb: buff\x7d)" ∧
      ∃ type, ReadsAs "(optional \x7bb: buff\x7d)" type ∧ type.toValueType = spec.toValueType := by
  obtain ⟨spec, hread, hdepth, htext⟩ : ∃ spec : TypeSpec, spec.ReadFrom nestedTypes ∧
      spec.toValueType.depth ≤ ValueType.maxRenderDepth ∧
      spec.toValueType.render.toOption = some "(optional \x7bb: buff\x7d)" :=
    exists_readFrom rfl (by decide +kernel)
  obtain ⟨text, hrender, htype, -⟩ := readsAs_render hread hdepth
  obtain rfl : text = "(optional \x7bb: buff\x7d)" := by
    simpa [hrender, Except.toOption] using htext
  exact ⟨spec, hread, hrender, htype⟩

end ContractAudit
