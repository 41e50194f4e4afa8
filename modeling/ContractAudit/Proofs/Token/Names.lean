import ContractAudit.Proofs.Syntax.Print
import ContractAudit.Proofs.Token.Lexical

/-!
# Tokens of names

A word by itself is read as one name, and it is read as the same name wherever it stands before a
space, before a dot or at the end of the text. The words of a name with dots in it are read as
tokens that touch each other, so that the parser joins them again.
-/

namespace ContractAudit

open List PieceKind Bool Prod Text ContractAudit.Parser TokenKind

namespace Scan

variable {p : Char → Bool} {c : Char} {raw rest rest' value text : List Char} {kind : TokenKind}
  (location : Location)

/-- Nothing follows, or a character outside a class does. -/
def Stops (p : Char → Bool) (rest : List Char) : Prop :=
  ∀ c ∈ rest.head?, p c = false

theorem takeWhile_append_of_stops (htext : ∀ c ∈ text, p c = true) (hrest : Stops p rest) :
    (text ++ rest).takeWhile p = text := by
  rw [takeWhile_append_of_pos htext]
  cases rest with
  | nil => simp
  | cons c rest => simp [hrest c rfl]

def tokensFrom (location : Location) (text : List Char) : List Token :=
  (piecesFrom location 0 text).filterMap Piece.token?

theorem piecesFrom_length (text rest : List Char) :
    piecesFrom location text.length (text ++ rest) = piecesFrom (location.after text) 0 rest := by
  induction text generalizing location with
  | nil => rfl
  | cons c text ih => exact ih (location.next c)

theorem tokensFrom_token (h : scan c (text ++ rest) = (.token kind value, text.length))
    (location : Location) :
    tokensFrom location (c :: text ++ rest) =
      ⟨kind, String.ofList value, String.ofList (c :: text), location⟩ ::
        tokensFrom (location.after (c :: text)) rest := by
  unfold tokensFrom
  rw [cons_append, piecesFrom, h]
  simp only [take_left, piecesFrom_length]
  rfl

theorem tokensFrom_punctuation (h : punctuation? c = some kind)
    (hblank : isBlank c = false) (hcomment : c ≠ ';') (location : Location)
    (rest : List Char) :
    tokensFrom location ([c] ++ rest) = ⟨kind, String.ofList [c], String.ofList [c], location⟩ ::
        tokensFrom (location.after [c]) rest := by
  apply tokensFrom_token
  unfold scan
  rw [if_neg (by simp [hblank]), if_neg hcomment, h]
  rfl

theorem tokensFrom_space (rest : List Char) :
    tokensFrom location (' ' :: rest) = tokensFrom (location.next ' ') rest := by
  have h : scan ' ' rest = (.blank, 0) := by
    rw [scan, if_pos (by decide)]
  unfold tokensFrom
  rfl

theorem tokensFrom_nil : tokensFrom location [] = [] := by rfl

/-! ## Tokens in other texts -/

theorem isNameChar_of_isDigit (h : isDigit c = true) : isNameChar c = true := by
  simp [isNameChar, isAlphanumeric, h]

theorem isNameChar_of_isHexDigit (h : isHexDigit c = true) : isNameChar c = true := by
  have hclass : c.isDigit = true ∨ c.isAlpha = true := by
    simp only [isHexDigit, or_eq_true, and_eq_true, decide_eq_true_eq, Char.le_def] at h
    unfold Char.isAlpha Char.isUpper Char.isLower
    simp only [or_eq_true, and_eq_true, decide_eq_true_eq]
    grind
  rcases hclass with hdigit | hletter
  · exact isNameChar_of_isDigit (by simp [isDigit, hdigit])
  · simp [isNameChar, isAlphanumeric, isLetter, hletter]

theorem takeWhile_transfer (h : ((raw ++ rest).takeWhile p).length = raw.length)
    (hstops : Stops p rest') : (raw ++ rest').takeWhile p = (raw ++ rest).takeWhile p := by
  have hinitial : (raw ++ rest).takeWhile p <+: raw ++ rest := takeWhile_prefix p
  have hraw : (raw ++ rest).takeWhile p = raw :=
    (prefix_of_prefix_length_le hinitial (prefix_append raw rest) h.le).eq_of_length h
  have hall : ∀ c ∈ raw, p c = true := by
    intro c hc
    rw [← hraw] at hc
    exact mem_takeWhile_imp hc
  rw [hraw, takeWhile_append_of_stops hall hstops]

theorem scanString_cons (hquote : c ≠ '"') (hescape : c ≠ '\\') (rest : List Char) :
    scanString (c :: rest) = (c :: (scanString rest).1, (scanString rest).2 + 1) := by
  rw [scanString]
  · simpa using hquote
  · simp [hescape]

theorem scanString_transfer (h : (scanString (raw ++ rest)).2 = raw.length)
    (hopen : rest = [] → rest' = []) : scanString (raw ++ rest') = scanString (raw ++ rest) := by
  cases rest with
  | nil => rw [hopen rfl]
  | cons d rest =>
      clear hopen
      fun_induction scanString raw with
      | case1 =>
          rw [nil_append] at h
          unfold scanString at h
          split at h <;> simp at *
      | case2 raw => rfl
      | case3 c raw ih =>
          have hraw := ih (by simpa [scanString] using h)
          simp [scanString, hraw]
      | case4 c raw hquote hescape ih =>
          by_cases hbackslash : c = '\\'
          · cases raw with
            | nil => simp [hbackslash, scanString] at h
            | cons d raw => exact absurd rfl (hescape d raw hbackslash)
          · rw [cons_append, scanString_cons hquote hbackslash] at h ⊢
            rw [cons_append, scanString_cons hquote hbackslash, ih (by simpa using h)]

/-- What follows ends a token that is no principal. -/
def Apart (rest : List Char) : Prop :=
  ∀ c ∈ rest.head?, isNameChar c = false ∧ c ≠ '"'

theorem Apart.stops (h : Apart rest) (hp : ∀ c, p c = true → isNameChar c = true) :
    Stops p rest := by
  intro c hc
  rw [← not_eq_true]
  exact fun htrue => false_ne_true ((h c hc).1.symm.trans (hp c htrue))

/-- A token is the same token wherever it stands before what ends it. A string that is not closed
stands at the end of a text only. -/
theorem scan_transfer (h : scan c (raw ++ rest) = (.token kind value, raw.length))
    (hapart : Apart rest') (hprincipal : kind = .principal → Stops isPrincipalChar rest')
    (hopen : kind = .stringAscii ∨ kind = .stringUtf8 → rest = [] → rest' = []) :
    scan c (raw ++ rest') = (.token kind value, raw.length) := by
  -- The branches that look at the next character find what they look for in the token itself.
  have hlook {d : Char} (hd : isNameChar d = true ∨ d = '"')
      (h : (raw ++ rest').head? = some d) : (raw ++ rest).head? = some d := by
    cases raw with
    | nil =>
        obtain ⟨hname, hquote⟩ := hapart d h
        rw [hname] at hd
        exact absurd hd (by simpa using hquote)
    | cons e raw => exact h
  have hdigit (h : startsWithDigit (raw ++ rest') = true) :
      startsWithDigit (raw ++ rest) = true := by
    obtain ⟨d, hd, hdigit⟩ := (Option.any_eq_true _ _).mp h
    exact (Option.any_eq_true _ _).mpr ⟨d, hlook (.inl (isNameChar_of_isDigit hdigit)) hd, hdigit⟩
  have hsame (hraw : raw ≠ []) : (raw ++ rest').head? = (raw ++ rest).head? := by
    cases raw with
    | nil => exact absurd rfl hraw
    | cons e raw => rfl
  have hclass {p : Char → Bool} (hlength : ((raw ++ rest).takeWhile p).length = raw.length)
      (hp : ∀ c, p c = true → isNameChar c = true) :
      (raw ++ rest').takeWhile p = (raw ++ rest).takeWhile p :=
    takeWhile_transfer hlength (hapart.stops hp)
  have hdigits (h : startsWithDigit (raw ++ rest) = true)
      (hlength : ((raw ++ rest).takeWhile isDigit).length = raw.length) : raw ≠ [] := by
    rintro rfl
    exact (digits_takeWhile h).1 (length_eq_zero_iff.mp hlength)
  unfold scan at h ⊢
  split at h
  · cases h
  next hblank =>
  rw [if_neg hblank]
  split at h
  · cases h
  next hcomment =>
  rw [if_neg hcomment]
  split at h
  · exact h
  split at h
  · next hquote =>
    simp only [mk.injEq, token.injEq] at h
    obtain ⟨⟨rfl, rfl⟩, hlength⟩ := h
    rw [if_pos hquote, scanString_transfer hlength (hopen (.inl rfl)), ← hlength]
  next hquote =>
  rw [if_neg hquote]
  split at h
  · next hutf =>
    cases raw with
    | nil => simp at h
    | cons d raw =>
        rw [hsame nofun, if_pos hutf]
        simp only [mk.injEq, token.injEq, cons_append, tail_cons, length_cons,
          Nat.add_right_cancel_iff] at h ⊢
        obtain ⟨⟨rfl, rfl⟩, hlength⟩ := h
        simp [scanString_transfer hlength (hopen (.inr rfl)), hlength]
  next hutf =>
  rw [if_neg (by grind)]
  split at h
  · next huint =>
    simp only [mk.injEq, token.injEq] at h
    obtain ⟨⟨rfl, rfl⟩, hlength⟩ := h
    have hraw := hdigits (and_eq_true_iff.mp huint).2 hlength
    rw [startsWithDigit, hsame hraw, ← startsWithDigit, if_pos huint,
      hclass hlength fun _ => isNameChar_of_isDigit, ← hlength]
  next huint =>
  rw [if_neg (by grind)]
  split at h
  · next hbuffer =>
    cases raw with
    | nil => simp at h
    | cons d raw =>
        rw [hsame nofun, if_pos hbuffer]
        simp only [mk.injEq, token.injEq, cons_append, tail_cons, length_cons,
          Nat.add_right_cancel_iff] at h ⊢
        obtain ⟨⟨rfl, rfl⟩, hlength⟩ := h
        rw [takeWhile_transfer hlength (hapart.stops fun _ => isNameChar_of_isHexDigit)]
        exact ⟨⟨rfl, rfl⟩, hlength⟩
  next hbuffer =>
  rw [if_neg (by grind [show isNameChar 'x' = true ∧ isNameChar 'X' = true by decide])]
  split at h
  · next hint =>
    simp only [mk.injEq, token.injEq] at h
    obtain ⟨⟨rfl, rfl⟩, hlength⟩ := h
    rw [if_pos hint, hclass hlength fun _ => isNameChar_of_isDigit, ← hlength]
  next hint =>
  rw [if_neg hint]
  split at h
  · next hnegative =>
    simp only [mk.injEq, token.injEq] at h
    obtain ⟨⟨rfl, rfl⟩, hlength⟩ := h
    have hraw := hdigits (and_eq_true_iff.mp hnegative).2 hlength
    rw [startsWithDigit, hsame hraw, ← startsWithDigit, if_pos hnegative,
      hclass hlength fun _ => isNameChar_of_isDigit, ← hlength]
  next hnegative =>
  rw [if_neg (by grind)]
  split at h
  · next hmark =>
    simp only [mk.injEq, token.injEq] at h
    obtain ⟨⟨rfl, rfl⟩, hlength⟩ := h
    rw [if_pos hmark, takeWhile_transfer hlength (hprincipal rfl), ← hlength]
  next hmark =>
  rw [if_neg hmark]
  split at h
  · next hname =>
    simp only [mk.injEq, token.injEq] at h
    obtain ⟨⟨rfl, rfl⟩, hlength⟩ := h
    rw [if_pos hname, hclass hlength fun _ => id, ← hlength]
  · cases h

/-- A token by itself is the same token before what ends it. -/
theorem scan_alone (h : scan c raw = (.token kind value, raw.length))
    (hkind : kind ≠ .stringAscii ∧ kind ≠ .stringUtf8) (hapart : Apart rest)
    (hprincipal : kind = .principal → Stops isPrincipalChar rest) :
    scan c (raw ++ rest) = (.token kind value, raw.length) := by
  have halone : scan c (raw ++ []) = (.token kind value, raw.length) := by rwa [append_nil]
  exact scan_transfer halone hapart hprincipal fun hstring => absurd hstring (not_or.mpr hkind)

def Spaced (rest : List Char) : Prop :=
  ∀ c ∈ rest.head?, c = ' '

theorem Spaced.apart (h : Spaced rest) : Apart rest := by
  intro c hc
  rw [h c hc]
  decide

theorem Spaced.stops (h : Spaced rest) : Stops isPrincipalChar rest := by
  intro c hc
  rw [h c hc]
  decide

/-! ## Words -/

theorem word_of_scan {length : Nat} (h : scan c rest = (.token kind value, length))
    (hword : kind.isName = true ∨ kind = .bool) :
    isNameStart c = true ∧ kind = wordKind value ∧ value = c :: rest.takeWhile isNameChar ∧
      length = (rest.takeWhile isNameChar).length := by
  -- Every branch of the scan before that of words gives a gap or a token of another kind.
  unfold scan at h
  iterate 2
    split at h
    · cases h
  split at h
  · next hpunctuation =>
      cases h
      unfold punctuation? at hpunctuation
      split at hpunctuation <;> cases hpunctuation <;> simp [isName] at hword
  iterate 7
    split at h
    · cases h
      simp [isName] at hword
  split at h
  · next hstart =>
      cases h
      exact ⟨hstart, rfl, rfl, rfl⟩
  · cases h

section

variable (h : scan c raw = (.token kind value, raw.length))
  (hword : kind.isName = true ∨ kind = .bool)

include h hword

theorem isNameChar_of_scan : ∀ d ∈ c :: raw, isNameChar d = true := by
  obtain ⟨hstart, _, _, hlength⟩ := word_of_scan h hword
  have hwhole : raw.takeWhile isNameChar = raw :=
    (takeWhile_sublist isNameChar).eq_of_length hlength.symm
  intro d hd
  rcases mem_cons.mp hd with rfl | hd
  · exact isNameChar_of_isNameStart hstart
  · rw [← hwhole] at hd
    exact mem_takeWhile_imp hd

/-- A word by itself is the same word wherever it stands apart. -/
theorem scan_word (hrest : Apart rest) :
    scan c (raw ++ rest) = (.token kind (c :: raw), raw.length) ∧ kind = wordKind (c :: raw) := by
  obtain ⟨_, hkind, hvalue, hlength⟩ := word_of_scan h hword
  rw [(takeWhile_sublist isNameChar).eq_of_length hlength.symm] at hvalue
  subst hvalue
  have hkind' : kind ≠ .stringAscii ∧ kind ≠ .stringUtf8 ∧ kind ≠ .principal := by
    refine ⟨?_, ?_, ?_⟩ <;> rintro rfl <;> simp [isName] at hword
  exact ⟨scan_alone h ⟨hkind'.1, hkind'.2.1⟩ hrest (absurd · hkind'.2.2), hkind⟩

end

theorem exists_scan_of_isWord (h : isWord (c :: text) = true) :
    ∃ kind value, scan c text = (.token kind value, text.length) ∧ kind.isName = true := by
  simp only [isWord] at h
  split at h
  · next kind value length hscan =>
      simp only [and_eq_true, decide_eq_true_eq] at h
      obtain ⟨hname, rfl⟩ := h
      exact ⟨kind, value, hscan, hname⟩
  · cases h

theorem ne_dot_of_isWord (h : isWord text = true) : ∀ c ∈ text, decide (c ≠ '.') = true := by
  cases text with
  | nil => exact fun c hc => nomatch hc
  | cons first text =>
      obtain ⟨kind, value, hscan, hname⟩ := exists_scan_of_isWord h
      have hdot : isNameChar '.' = false := by decide
      intro c hc
      have hchar := isNameChar_of_scan hscan (.inl hname) c hc
      rw [decide_eq_true_eq]
      rintro rfl
      cases hchar

theorem tokensFrom_word (h : isWord text = true) (hrest : Apart rest) (location : Location) :
    (wordKind text).isName = true ∧ tokensFrom location (text ++ rest) =
      ⟨wordKind text, String.ofList text, String.ofList text, location⟩ ::
        tokensFrom (location.after text) rest := by
  cases text with
  | nil => cases h
  | cons c text =>
      obtain ⟨kind, value, hscan, hname⟩ := exists_scan_of_isWord h
      obtain ⟨happart, rfl⟩ := scan_word hscan (.inl hname) hrest
      exact ⟨hname, tokensFrom_token happart location⟩

/-! ## Names with dots -/

def dotted (words : List (List Char)) : List Char :=
  words.flatMap ('.' :: ·)

theorem intercalate_cons_eq (mark word : List Char) (words : List (List Char)) :
    mark.intercalate (word :: words) = word ++ words.flatMap (mark ++ ·) := by
  induction words generalizing word with
  | nil => simp
  | cons next words ih =>
      rw [intercalate_cons_cons, ih]
      simp

theorem Spaced.apart_dotted (hrest : Spaced rest) (words : List (List Char)) :
    Apart (dotted words ++ rest) := by
  cases words with
  | nil => exact hrest.apart
  | cons word words =>
      intro c hc
      obtain rfl : '.' = c := by simpa [dotted] using hc
      decide

theorem dottedTail_dotted {words : List (List Char)} (h : ∀ word ∈ words, isWord word = true)
    (hrest : Spaced rest) (last : Token) (location : Location)
    (hlast : location.offset = last.location.offset + last.raw.length) :
    ∃ more, tokensFrom location (dotted words ++ rest) =
        more ++ tokensFrom (location.after (dotted words)) rest ∧
      ∀ (name : String) (later : List Token), (∀ token ∈ later.head?, token.kind ≠ .dot) →
        ∃ final, dottedTail last name (more ++ later) =
          (final, name ++ String.ofList (dotted words), later) := by
  induction words generalizing last location with
  | nil =>
      refine ⟨[], rfl, fun name later hlater => ⟨last, ?_⟩⟩
      have hstop : dottedTail last name later = (last, name, later) := by
        unfold dottedTail
        split
        · next dot word rest => rw [if_neg (by simp [hlater dot rfl])]
        · rfl
      simpa [dotted] using hstop
  | cons word words ih =>
      have hword := tokensFrom_word (h word (by simp)) (hrest.apart_dotted words)
        (location.after ['.'])
      obtain ⟨more, hmore, htail⟩ := ih (fun next hnext => h next (mem_cons_of_mem _ hnext))
        ⟨wordKind word, String.ofList word, String.ofList word, location.after ['.']⟩
        ((location.after ['.']).after word) (by simp [offset_after])
      -- The dot and the word touch, so the parser takes them and goes on behind the word.
      refine ⟨⟨.dot, ".", ".", location⟩ ::
        ⟨wordKind word, String.ofList word, String.ofList word, location.after ['.']⟩ :: more,
        ?_, ?_⟩
      · have hsplit : dotted (word :: words) ++ rest = ['.'] ++
          (word ++ (dotted words ++ rest)) := by
          simp [dotted]
        have hafter : location.after (dotted (word :: words)) =
            ((location.after ['.']).after word).after (dotted words) := by
          rw [← Location.after_append, ← Location.after_append]
          simp [dotted]
        rw [hsplit, tokensFrom_punctuation (c := '.') rfl (by decide) (by decide), hword.2,
          hmore, hafter]
        rfl
      · intro name later hlater
        obtain ⟨final, hfinal⟩ := htail (name ++ "." ++ String.ofList word) later hlater
        refine ⟨final, ?_⟩
        have hjoin : name ++ "." ++ String.ofList word ++ String.ofList (dotted words) =
            name ++ String.ofList (dotted (word :: words)) := by
          apply String.toList_injective
          simp [dotted]
        have hstep : (location.next '.').offset = location.offset + 1 := by
          simp [Location.next]
        rw [cons_append, cons_append, dottedTail,
          if_pos (by simp [hlast, hword.1, hstep]), hfinal, hjoin]

end Scan

end ContractAudit
