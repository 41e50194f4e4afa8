import ContractAudit.Proofs.Text.Numeral
import ContractAudit.Proofs.Token.Names

/-!
# Tokens of printed text

The scanner reads each mark of a printed text as the tokens that stand for it, because a mark is
followed by a space or by nothing. A name with dots is several tokens and every other mark is one.
-/

namespace ContractAudit

open List Mark ContractAudit.Parser Literal Scan Nat Location

variable {c d : Char} {digits rest : List Char} {address : String} {marks : List Mark}

def Mark.readable : Mark → Bool
  | .leftParen => true
  | .rightParen => true
  | .word text => isPlainName text
  | .name text => isDottedName text
  | .literal value => value.printable
  | .size value => isShort value

/-- Tokens that a mark is read as. -/
inductive Stands : Mark → List Token → Prop
  | leftParen (token : Token) (hkind : token.kind = .leftParen) : Stands .leftParen [token]
  | rightParen (token : Token) (hkind : token.kind = .rightParen) : Stands .rightParen [token]
  | word (text : String) (token : Token) (hname : token.kind.isName = true)
      (hkind : token.kind = wordKind text.toList) (hvalue : token.value = text) :
      Stands (.word text) [token]
  /-- The tokens after the first are its dotted tail, whatever tokens follow. -/
  | name (text : String) (first : Token) (more : List Token) (hname : first.kind.isName = true)
      (hkind : first.kind = wordKind first.value.toList)
      (hvalue : first.value.toList = text.toList.takeWhile (· ≠ '.'))
      (htail : ∀ rest : List Token, (∀ token ∈ rest.head?, token.kind ≠ .dot) →
        ∃ last, dottedTail first first.value (more ++ rest) = (last, text, rest)) :
      Stands (.name text) (first :: more)
  | literal (value : Literal) (token : Token) (hkind : token.kind.isLiteral = true)
      (hvalue : literalValue token = pure value) : Stands (.literal value) [token]
  | size (value : Int) (token : Token) (hkind : token.kind = .int)
      (hvalue : Text.Numeral.read token.value = .ok value) : Stands (.size value) [token]

/-- Tokens that marks in a row are read as. -/
inductive Written : List Mark → List Token → Prop
  | nil : Written [] []
  | cons {mark : Mark} {marks : List Mark} {used rest : List Token} (hmark : Stands mark used)
      (hrest : Written marks rest) : Written (mark :: marks) (used ++ rest)

namespace Scan

/-! ## Literals -/

open Text.Numeral (AllDigits toNat_of_isDigit)

variable {contract : Option String} {text : List Char} {mark : Mark} (value : List Char)

theorem isDigit_of_isDigit (h : c.isDigit = true) : Text.isDigit c = true := by
  simp [Text.isDigit, h]

theorem isBlank_of_isDigit (h : c.isDigit = true) : Text.isBlank c = false := by
  obtain ⟨hlow, hhigh⟩ := toNat_of_isDigit h
  simp only [Text.isBlank, Text.blankTable, Text.RangeTable.contains, any_cons, any_nil,
    Bool.or_eq_false_iff, Bool.and_eq_false_iff, decide_eq_false_iff_not, and_true]
  omega

theorem punctuation?_of_isDigit (h : c.isDigit = true) : punctuation? c = none := by
  unfold punctuation?
  split <;> first | rfl | cases h

theorem ne_of_isDigit (h : c.isDigit = true) (hd : d.isDigit = false) : c ≠ d := by
  rintro rfl
  rw [h] at hd
  cases hd

theorem startsWithDigit_digits (hdigits : AllDigits digits)
    (hne : digits ≠ []) : startsWithDigit digits = true := by
  cases digits with
  | nil => exact absurd rfl hne
  | cons c digits => simp [startsWithDigit, isDigit_of_isDigit (hdigits c (by simp))]

theorem takeWhile_digits (hdigits : AllDigits digits) : digits.takeWhile Text.isDigit = digits :=
  takeWhile_eq_self_iff.mpr fun c hc => isDigit_of_isDigit (hdigits c hc)

theorem head?_ne_of_digits (hdigits : AllDigits digits) (hd : d.isDigit = false) :
    digits.head? ≠ some d :=
  fun h => ne_of_isDigit (hdigits d (mem_of_mem_head? h)) hd rfl

theorem scan_int (hdigits : AllDigits (c :: digits)) :
    scan c digits = (.token .int (c :: digits), digits.length) := by
  have hc := hdigits c (by simp)
  have hothers : AllDigits digits := fun d hd => hdigits d (mem_cons_of_mem c hd)
  unfold scan
  rw [if_neg (by simp [isBlank_of_isDigit hc]), if_neg (ne_of_isDigit hc (by decide)),
    punctuation?_of_isDigit hc]
  rw [if_neg (ne_of_isDigit hc (by decide)),
    if_neg (by simp [ne_of_isDigit hc (d := 'u') (by decide)]),
    if_neg (by simp [ne_of_isDigit hc (d := 'u') (by decide)]),
    if_neg (by simp [head?_ne_of_digits hothers (d := 'x') (by decide),
      head?_ne_of_digits hothers (d := 'X') (by decide)]),
    if_pos (isDigit_of_isDigit hc), takeWhile_digits hothers]

theorem scan_negative (hdigits : AllDigits digits) (hne : digits ≠ []) :
    scan '-' digits = (.token .int ('-' :: digits), digits.length) := by
  unfold scan
  rw [if_neg (by decide), if_neg (by decide), show punctuation? '-' = none from rfl]
  rw [if_neg (by decide), if_neg (by simp), if_neg (by simp), if_neg (by simp),
    if_neg (by decide), if_pos (by simp [startsWithDigit_digits hdigits hne]),
    takeWhile_digits hdigits]

theorem scan_uint (hdigits : AllDigits digits) (hne : digits ≠ []) :
    scan 'u' digits = (.token .uint digits, digits.length) := by
  unfold scan
  rw [if_neg (by decide), if_neg (by decide), show punctuation? 'u' = none from rfl]
  rw [if_neg (by decide), if_neg (by simp [head?_ne_of_digits hdigits (d := '"') (by decide)]),
    if_pos (by simp [startsWithDigit_digits hdigits hne]), takeWhile_digits hdigits]

theorem scanString_escape (rest : List Char) : scanString (value.flatMap escape ++ '"' :: rest) =
      (value, (value.flatMap escape).length + 1) := by
  induction value with
  | nil => rfl
  | cons c value ih =>
      by_cases hquote : c = '"'
      · subst hquote
        simp [escape, scanString, ih, unescape]
      · by_cases hslash : c = '\\'
        · subst hslash
          simp [escape, scanString, ih, unescape]
        · simp [escape, hquote, hslash, scanString, ih]

theorem scan_string (rest : List Char) : scan '"' (value.flatMap escape ++ ['"'] ++ rest) =
      (.token .stringAscii value, (value.flatMap escape ++ ['"']).length) := by
  unfold scan
  rw [if_neg (by decide), if_neg (by decide), show punctuation? '"' = none from rfl]
  rw [if_pos rfl, append_assoc, singleton_append, scanString_escape]
  simp

theorem scan_utf8 (rest : List Char) : scan 'u' ('"' :: (value.flatMap escape ++ ['"']) ++ rest) =
      (.token .stringUtf8 value, ('"' :: (value.flatMap escape ++ ['"'])).length) := by
  unfold scan
  rw [if_neg (by decide), if_neg (by decide), show punctuation? 'u' = none from rfl]
  rw [if_neg (by decide), if_pos (by simp), cons_append, tail_cons, append_assoc,
    singleton_append, scanString_escape]
  simp

theorem toLower_of_hex (h : (c.isDigit || ('a' ≤ c && c ≤ 'f')) = true) :
    isHexDigit c = true ∧ c.toLower = c := by
  constructor
  · simp only [isHexDigit, h, Bool.true_or]
  · have hbounds : c.toNat < 65 ∨ 90 < c.toNat := by
      rw [Bool.or_eq_true] at h
      rcases h with h | h
      · obtain ⟨_, hhigh⟩ := toNat_of_isDigit h
        omega
      · simp only [Bool.and_eq_true, decide_eq_true_eq] at h
        have hlow : 97 ≤ c.toNat := h.1
        omega
    have hupper : ¬(c.val ≥ 'A'.val ∧ c.val ≤ 'Z'.val) := by
      rintro ⟨hlow, hhigh⟩
      have hlow' : 65 ≤ c.toNat := hlow
      have hhigh' : c.toNat ≤ 90 := hhigh
      omega
    exact dif_neg hupper

theorem scan_buffer (h : ∀ c ∈ digits, (c.isDigit || ('a' ≤ c && c ≤ 'f')) = true) :
    scan '0' ('x' :: digits) = (.token .buffer digits, ('x' :: digits).length) := by
  have hlower : digits.map Char.toLower = digits :=
    (map_congr_left fun c hc => (toLower_of_hex (h c hc)).2).trans (map_id digits)
  have hdigits : digits.takeWhile isHexDigit = digits :=
    takeWhile_eq_self_iff.mpr fun c hc => (toLower_of_hex (h c hc)).1
  unfold scan
  rw [if_neg (by decide), if_neg (by decide), show punctuation? '0' = none from rfl]
  dsimp only
  rw [if_neg (by decide), if_neg (by simp), if_neg (by simp), if_pos (by simp), tail_cons, hdigits,
    hlower, length_cons]

theorem scan_principal (h : ∀ c ∈ text, isPrincipalChar c = true) :
    scan '\'' text = (.token .principal text, text.length) := by
  unfold scan
  rw [if_neg (by decide), if_neg (by decide), show punctuation? '\'' = none from rfl]
  rw [if_neg (by decide), if_neg (by simp), if_neg (by simp), if_neg (by simp),
    if_neg (by decide), if_neg (by simp), if_pos rfl, takeWhile_eq_self_iff.mpr h]

open Text.Numeral (allDigits_toDigits toString_cases read_toString)

theorem tokensFrom_int (value : Int) (hrest : Apart rest) (location : Location) :
    tokensFrom location ((toString value).toList ++ rest) =
      ⟨.int, toString value, toString value, location⟩ ::
        tokensFrom (location.after (toString value).toList) rest := by
  have hdigits := allDigits_toDigits value.natAbs
  rcases toString_cases value with ⟨_, htext⟩ | ⟨_, htext⟩
  · rw [htext, String.toList_ofList]
    cases htoDigits : toDigits 10 value.natAbs with
    | nil => exact absurd htoDigits toDigits_ne_nil
    | cons c digits =>
        rw [htoDigits] at hdigits
        exact tokensFrom_token (scan_alone (scan_int hdigits) (by simp) hrest nofun) location
  · rw [htext, String.toList_ofList]
    exact tokensFrom_token
      (scan_alone (scan_negative hdigits toDigits_ne_nil) (by simp) hrest nofun) location

def principalChars (address : String) (contract : Option String) : List Char :=
  address.toList ++ contract.elim [] fun name => '.' :: name.toList

theorem toList_principalText (address : String) (contract : Option String) :
    (principalText address contract).toList = '\'' :: principalChars address contract := by
  cases contract <;> simp [principalText, principalChars]

theorem isPrincipalChar_of_mem (h : (principal address contract).printable = true) :
    ∀ c ∈ principalChars address contract, isPrincipalChar c = true := by
  simp only [printable, Bool.and_eq_true, all_eq_true] at h
  obtain ⟨haddress, hcontract⟩ := h
  intro c hc
  rcases mem_append.mp hc with hc | hc
  · exact (haddress c hc).1
  · cases contract with
    | none => cases hc
    | some name =>
        rcases mem_cons.mp hc with rfl | hc
        · decide
        · exact all_eq_true.mp hcontract c hc

theorem literalValue_principal (h : ∀ c ∈ address.toList, decide (c ≠ '.') = true) (raw : String)
    (location : Location) :
    literalValue ⟨.principal, String.ofList (principalChars address contract), raw,
      location⟩ = pure (.principal address contract) := by
  have hstops : Stops (fun c => decide (c ≠ '.'))
      (contract.elim [] fun name => '.' :: name.toList) := by
    intro c hc
    cases contract <;> cases hc
    rfl
  simp only [literalValue, principalChars, String.toList_ofList,
    span_eq_takeWhile_dropWhile, takeWhile_append_of_stops h hstops,
    dropWhile_append_of_pos h, String.ofList_toList]
  cases contract <;> simp

theorem stands_of_scan {value : Literal} {chars : List Char} {kind : TokenKind}
    (htext : (literalText value).toList = c :: text)
    (hscan : scan c (text ++ rest) = (.token kind chars, text.length))
    (hkind : kind.isLiteral = true)
    (hvalue : ∀ (raw : String) (location : Location),
      literalValue ⟨kind, String.ofList chars, raw, location⟩ = pure value) (location : Location) :
    ∃ token, Stands (.literal value) [token] ∧
      tokensFrom location ((literalText value).toList ++ rest) =
        token :: tokensFrom (location.after (literalText value).toList) rest := by
  rw [htext]
  exact ⟨_, .literal value _ hkind (hvalue _ location), tokensFrom_token hscan location⟩

theorem literalValue_uint {value : Int} (hnonneg : 0 ≤ value) (hshort : isShort value = true)
    (raw : String) (location : Location) :
    literalValue ⟨.uint, String.ofList (toDigits 10 value.natAbs), raw, location⟩ =
      pure (.uint value) := by
  rw [isShort, decide_eq_true_eq] at hshort
  have hread := read_toString hshort
  rcases toString_cases value with ⟨_, htext⟩ | ⟨hneg, _⟩
  · rw [htext] at hread
    simp only [literalValue, integer, hread]
    rfl
  · omega

theorem stands_literal {value : Literal} (h : value.printable = true)
    (hrest : Spaced rest) (location : Location) :
    ∃ token, Stands (.literal value) [token] ∧
      tokensFrom location ((literalText value).toList ++ rest) =
        token :: tokensFrom (location.after (literalText value).toList) rest := by
  cases value with
  | uint value =>
      simp only [printable, Bool.and_eq_true, decide_eq_true_eq] at h
      have htext : (literalText (.uint value)).toList = 'u' :: toDigits 10 value.natAbs := by
        rcases toString_cases value with ⟨_, htext⟩ | ⟨hneg, _⟩
        · simp [literalText, htext]
        · omega
      exact stands_of_scan htext (scan_alone (scan_uint (allDigits_toDigits _) toDigits_ne_nil)
        (by simp) hrest.apart nofun) rfl (literalValue_uint h.1 h.2) location
  | int value =>
      -- The sign decides what is scanned, so this text is not of the shape that the others have.
      simp only [printable, isShort, decide_eq_true_eq] at h
      refine ⟨_, .literal _ _ rfl ?_, tokensFrom_int value hrest.apart location⟩
      simp only [literalValue, integer, read_toString h]
      rfl
  | bool value =>
      cases value with
      | true =>
          have hscan : scan 't' ['r', 'u', 'e'] = (.token .bool ['t', 'r', 'u', 'e'], 3) := by
            decide
          exact stands_of_scan (by decide) (scan_word hscan (.inr rfl) hrest.apart).1 rfl
            (fun _ _ => rfl) location
      | false =>
          have hscan : scan 'f' ['a', 'l', 's', 'e'] =
            (.token .bool ['f', 'a', 'l', 's', 'e'], 4) := by
            decide
          exact stands_of_scan (by decide) (scan_word hscan (.inr rfl) hrest.apart).1 rfl
            (fun _ _ => rfl) location
  | string value encoding =>
      cases encoding with
      | ascii =>
          exact stands_of_scan (by simp [literalText, quoted])
            (scan_string value.toList rest) rfl (by simp [literalValue]) location
      | utf8 =>
          exact stands_of_scan (by simp [literalText, quoted])
            (scan_utf8 value.toList rest) rfl (by simp [literalValue]) location
  | buffer digits =>
      exact stands_of_scan (by simp [literalText])
        (scan_alone (scan_buffer (all_eq_true.mp h)) (by simp) hrest.apart nofun) rfl
        (by simp [literalValue]) location
  | principal address contract =>
      have haddress : ∀ c ∈ address.toList, decide (c ≠ '.') = true := by
        simp only [printable, Bool.and_eq_true, all_eq_true] at h
        exact fun c hc => (h.1 c hc).2
      have htext : (literalText (.principal address contract)).toList =
          '\'' :: principalChars address contract :=
        toList_principalText address contract
      exact stands_of_scan htext (scan_alone (scan_principal (isPrincipalChar_of_mem h)) (by simp)
        hrest.apart fun _ => hrest.stops) rfl (literalValue_principal haddress) location

/-! ## Marks -/

theorem stands_name {text : String} (h : isDottedName text = true)
    (hrest : Spaced rest) (location : Location) :
    ∃ used, Stands (.name text) used ∧ tokensFrom location (text.toList ++ rest) =
      used ++ tokensFrom (location.after text.toList) rest := by
  have hjoin : ['.'].intercalate (text.toList.splitOn '.') = text.toList :=
    intercalate_splitOn '.'
  rw [isDottedName] at h
  -- The first word is a token of its own, and the words after dots are its tail.
  cases hwords : text.toList.splitOn '.' with
  | nil => exact absurd hwords (splitOn_ne_nil _ _)
  | cons word words =>
      rw [hwords] at h hjoin
      rw [intercalate_cons_eq] at hjoin
      change word ++ dotted words = _ at hjoin
      simp only [all_cons, Bool.and_eq_true, all_eq_true] at h
      obtain ⟨hname, hword⟩ := tokensFrom_word h.1 (hrest.apart_dotted words) location
      obtain ⟨more, hmore, htail⟩ := dottedTail_dotted h.2 hrest
        ⟨wordKind word, String.ofList word, String.ofList word, location⟩ (location.after word)
        (by simp [offset_after])
      refine ⟨_, .name text ⟨wordKind word, String.ofList word, String.ofList word, location⟩ more
        hname (by simp) ?_ ?_, ?_⟩
      · have hstops : Stops (fun c => decide (c ≠ '.')) (dotted words) := by
          cases words with
          | nil => exact fun c hc => nomatch hc
          | cons next words =>
              intro c hc
              cases hc
              rfl
        rw [← hjoin, takeWhile_append_of_stops (ne_dot_of_isWord h.1) hstops, String.toList_ofList]
      · intro later hlater
        obtain ⟨last, hlast⟩ := htail (String.ofList word) later hlater
        refine ⟨last, ?_⟩
        rw [hlast, ← String.ofList_append, hjoin, String.ofList_toList]
      · rw [← hjoin, append_assoc, after_append]
        exact hword.trans (congrArg _ hmore)

theorem stands_mark (h : mark.readable = true) (hrest : Spaced rest) (location : Location) :
    ∃ used, Stands mark used ∧ tokensFrom location (mark.text.toList ++ rest) =
      used ++ tokensFrom (location.after mark.text.toList) rest := by
  cases mark with
  | leftParen =>
      exact ⟨_, .leftParen _ rfl,
        tokensFrom_punctuation (c := '(') rfl (by decide) (by decide) location rest⟩
  | rightParen =>
      exact ⟨_, .rightParen _ rfl,
        tokensFrom_punctuation (c := ')') rfl (by decide) (by decide) location rest⟩
  | word text =>
      obtain ⟨hname, htokens⟩ := tokensFrom_word h hrest.apart location
      rw [String.ofList_toList] at htokens
      exact ⟨_, .word text ⟨wordKind text.toList, text, text, location⟩ hname rfl rfl, htokens⟩
  | name text => exact stands_name h hrest location
  | literal value =>
      obtain ⟨token, hstands, htokens⟩ := stands_literal h hrest location
      exact ⟨_, hstands, htokens⟩
  | size value =>
      rw [readable, isShort, decide_eq_true_eq] at h
      exact ⟨_, .size value ⟨.int, toString value, toString value, location⟩ rfl (read_toString h),
        tokensFrom_int value hrest.apart location⟩

def spaced (marks : List Mark) : List Char :=
  (marks.map fun mark => mark.text.toList).flatMap (' ' :: ·)

theorem spaced_cons (mark : Mark) (marks : List Mark) :
    spaced (mark :: marks) = ' ' :: (mark.text.toList ++ spaced marks) := by
  simp [spaced]

theorem written_spaced (h : ∀ next ∈ mark :: marks, next.readable = true) (location : Location) :
    Written (mark :: marks) (tokensFrom location (mark.text.toList ++ spaced marks)) := by
  induction marks generalizing mark location with
  | nil =>
      have hnone : Spaced [] := fun c hc => nomatch hc
      obtain ⟨used, hstands, htokens⟩ := stands_mark (h mark (by simp)) hnone location
      rw [spaced, map_nil, flatMap_nil, htokens, tokensFrom_nil]
      exact .cons hstands .nil
  | cons next marks ih =>
      have hspace : Spaced (spaced (next :: marks)) := by
        intro c hc
        exact (Option.some.inj hc).symm
      obtain ⟨used, hstands, htokens⟩ := stands_mark (h mark (by simp)) hspace location
      rw [htokens, spaced_cons, tokensFrom_space]
      exact .cons hstands (ih (fun later hlater => h later (mem_cons_of_mem mark hlater)) _)

end Scan

theorem written_tokenize (h : ∀ mark ∈ marks, mark.readable = true) :
    Written marks (tokenize (" ".intercalate (marks.map text))).dropLast := by
  rw [dropLast_tokenize, pieces]
  show Written marks (tokensFrom start _)
  rw [String.toList_intercalate]
  cases marks with
  | nil => exact .nil
  | cons mark marks =>
      have htext : " ".toList.intercalate (((mark :: marks).map text).map String.toList) =
          mark.text.toList ++ spaced marks := by
        rw [map_cons, map_cons, intercalate_cons_eq, map_map]
        rfl
      rw [htext]
      exact written_spaced h start

end ContractAudit
