import ContractAudit.Proofs.Parse.Run
import Mathlib.Data.List.TakeWhile

/-!
# Tokens of a text

What the scanner says of every token of a text, whatever the text is: the kind of a token fixes its
value or the other way round, a name takes up text on one line, a number consists of digits, no
token means nothing, and no two tokens start at the same place.
-/

namespace ContractAudit

open List String Parse.State Text Scan Piece

variable {c : Char} {token : Token} (source : String)

/-- A text of one or more digits of any kind, after a minus or without a sign. -/
def IsNumeral (text : List Char) : Prop :=
  ∃ digits, digits ≠ [] ∧ (∀ c ∈ digits, isDigit c = true) ∧
    (text = digits ∨ text = '-' :: digits)

/-- A token as the scanner makes it. -/
structure Token.Lexical (token : Token) : Prop where
  punctuation : ∀ c, punctuation? c = some token.kind → token.value = ofList [c]
  word : token.kind.isName = true → wordKind token.value.toList = token.kind
  text : token.kind.isName = true → 0 < token.raw.length ∧ '\n' ∉ token.raw.toList
  bool : token.kind = .bool → token.value = "true" ∨ token.value = "false"
  numeral : token.kind = .int ∨ token.kind = .uint → IsNumeral token.value.toList

def Lexical (tokens : List Token) : Prop :=
  ∀ token ∈ tokens, token.Lexical

@[simp]
theorem lexical_nil : Lexical [] := by simp [Lexical]

@[simp]
theorem lexical_cons {rest : List Token} :
    Lexical (token :: rest) ↔ token.Lexical ∧ Lexical rest := by
  simp [Lexical]

@[simp]
theorem lexical_append {first second : List Token} :
    Lexical (first ++ second) ↔ Lexical first ∧ Lexical second := by
  simp [Lexical, or_imp, forall_and]

theorem Token.Lexical.offset_lt_finish (h : token.Lexical)
    (hname : token.kind.isName = true) : token.location.offset < token.finish.offset := by
  obtain ⟨hlength, hline⟩ := h.text hname
  simp only [Token.finish, contains_eq_mem, hline, decide_false, Bool.false_eq_true, if_false,
    Location.right]
  omega

namespace Scan

variable {kind : TokenKind} (location : Location) (covered : Nat) (text : List Char)

theorem punctuation?_injective {d : Char} (hc : punctuation? c = some kind)
    (hd : punctuation? d = some kind) : c = d := by
  unfold punctuation? at hc hd
  split at hc <;> cases hc <;> split at hd <;> first | rfl | cases hd

def isPlainLiteral : TokenKind → Bool
  | .uint | .int | .stringAscii | .stringUtf8 | .buffer | .principal => true
  | _ => false

theorem lexical_of_literal (h : isPlainLiteral kind = true) (value raw : String)
    (location : Location) (hnumeral : kind = .int ∨ kind = .uint → IsNumeral value.toList) :
    Token.Lexical ⟨kind, value, raw, location⟩ where
  punctuation := fun c hc => by
    unfold punctuation? at hc
    split at hc <;> cases hc <;> cases h
  word := fun hname => by cases kind <;> cases h <;> cases hname
  text := fun hname => by cases kind <;> cases h <;> cases hname
  bool := fun hbool => by
    subst hbool
    cases h
  numeral := hnumeral

theorem punctuation_lexical (h : punctuation? c = some kind) (raw : String) (location : Location) :
    Token.Lexical ⟨kind, ofList [c], raw, location⟩ where
  punctuation := fun d hd => by rw [punctuation?_injective h hd]
  word := fun hname => by
    unfold punctuation? at h
    split at h <;> cases h <;> cases hname
  text := fun hname => by
    unfold punctuation? at h
    split at h <;> cases h <;> cases hname
  bool := fun hbool => by
    subst hbool
    unfold punctuation? at h
    split at h <;> cases h
  numeral := fun hnumeral => by
    unfold punctuation? at h
    split at h <;> cases h <;> simp at hnumeral

/-! ## Numbers -/

theorem digits_takeWhile {text : List Char} (h : startsWithDigit text = true) :
    text.takeWhile isDigit ≠ [] ∧
      ∀ c ∈ text.takeWhile isDigit, isDigit c = true := by
  refine ⟨?_, fun c hc => mem_takeWhile_imp hc⟩
  cases text with
  | nil => cases h
  | cons c rest => simp [takeWhile_cons_of_pos (by simpa [startsWithDigit] using h)]

/-! ## Words -/

theorem wordKind_cases (word : List Char) :
    (wordKind word = .bool ∧ (ofList word = "true" ∨ ofList word = "false")) ∨
      wordKind word = .keyword ∨ wordKind word = .identifier := by
  unfold wordKind
  dsimp only
  split
  · next h => exact .inl ⟨rfl, by simpa using h⟩
  · split
    · exact .inr (.inl rfl)
    · exact .inr (.inr rfl)

theorem isNameChar_of_isNameStart (h : isNameStart c = true) : isNameChar c = true := by
  simp only [isNameStart, isNameChar, isAlphanumeric, Bool.or_eq_true] at h ⊢
  rcases h with h | h
  · exact .inl (.inl (.inl h))
  · exact .inr h

theorem take_length_takeWhile (p : Char → Bool) (text : List Char) :
    text.take (text.takeWhile p).length = text.takeWhile p := by
  have hinitial : text.takeWhile p <+: text := takeWhile_prefix p
  exact (prefix_iff_eq_take.mp hinitial).symm

theorem word_lexical (rest : List Char) (location : Location) (hstart : isNameStart c = true) :
    Token.Lexical ⟨wordKind (c :: rest.takeWhile isNameChar),
      ofList (c :: rest.takeWhile isNameChar),
      ofList (c :: rest.takeWhile isNameChar), location⟩ where
  punctuation := fun d hd => by
    unfold punctuation? at hd
    rcases wordKind_cases (c :: rest.takeWhile isNameChar) with ⟨hkind, _⟩ | hkind | hkind <;>
      split at hd <;> simp [hkind] at hd
  word := fun _ => by rw [toList_ofList]
  text := fun _ => by
    refine ⟨?_, fun hline => ?_⟩
    · rw [length_ofList, length_cons]
      omega
    rw [toList_ofList, mem_cons] at hline
    have hbreak : isNameChar '\n' = false := by decide
    rcases hline with rfl | hline
    · rw [isNameChar_of_isNameStart hstart] at hbreak
      cases hbreak
    · rw [mem_takeWhile_imp hline] at hbreak
      cases hbreak
  bool := fun hbool => by
    rcases wordKind_cases (c :: rest.takeWhile isNameChar) with ⟨_, hword⟩ | hkind | hkind
    · exact hword
    · simp [hkind] at hbool
    · simp [hkind] at hbool
  numeral := fun hnumeral => by
    rcases wordKind_cases (c :: rest.takeWhile isNameChar) with ⟨hkind, _⟩ | hkind | hkind <;>
      simp [hkind] at hnumeral

/-! ## Tokens -/

theorem scan_lexical {rest : List Char} {value : List Char} {length : Nat}
    (h : scan c rest = (.token kind value, length)) (location : Location) :
    Token.Lexical ⟨kind, ofList value, ofList (c :: rest.take length), location⟩ ∧
      kind.isGap = false ∧ kind ≠ .endOfInput := by
  unfold scan at h
  split at h
  · cases h
  split at h
  · cases h
  split at h
  · next hpunctuation =>
      cases h
      refine ⟨punctuation_lexical hpunctuation _ location, ?_⟩
      unfold punctuation? at hpunctuation
      split at hpunctuation <;> cases hpunctuation <;> exact ⟨rfl, by decide⟩
  -- The literals that are no words: strings, numbers, byte buffers and principals.
  iterate 2
    split at h
    · cases h
      exact ⟨lexical_of_literal rfl _ _ location (by simp), rfl, by decide⟩
  split at h
  · next hdigits =>
      cases h
      refine ⟨lexical_of_literal rfl _ _ location fun _ => ?_, rfl, by decide⟩
      rw [toList_ofList]
      obtain ⟨hne, hall⟩ := digits_takeWhile (Bool.and_eq_true_iff.mp hdigits).2
      exact ⟨_, hne, hall, .inl rfl⟩
  split at h
  · cases h
    exact ⟨lexical_of_literal rfl _ _ location (by simp), rfl, by decide⟩
  split at h
  · next hdigit =>
      cases h
      refine ⟨lexical_of_literal rfl _ _ location fun _ => ?_, rfl, by decide⟩
      rw [toList_ofList]
      refine ⟨_, cons_ne_nil _ _, fun d hd => ?_, .inl rfl⟩
      rcases mem_cons.mp hd with rfl | hd
      · exact hdigit
      · exact mem_takeWhile_imp hd
  split at h
  · next hdigits =>
      cases h
      refine ⟨lexical_of_literal rfl _ _ location fun _ => ?_, rfl, by decide⟩
      rw [toList_ofList]
      obtain ⟨hne, hall⟩ := digits_takeWhile (Bool.and_eq_true_iff.mp hdigits).2
      exact ⟨_, hne, hall, .inr rfl⟩
  split at h
  · cases h
    exact ⟨lexical_of_literal rfl _ _ location (by simp), rfl, by decide⟩
  split at h
  · next hstart =>
      cases h
      rw [take_length_takeWhile]
      refine ⟨word_lexical rest location hstart, ?_⟩
      rcases wordKind_cases (c :: rest.takeWhile isNameChar) with ⟨hkind, _⟩ | hkind | hkind <;>
        rw [hkind] <;> exact ⟨rfl, by decide⟩
  · cases h

theorem piecesFrom_lexical :
    ∀ piece ∈ piecesFrom location covered text, ∀ token, piece.token? = some token →
      token.Lexical ∧ token.kind.isGap = false ∧ token.kind ≠ .endOfInput := by
  fun_induction piecesFrom location covered text with
  | case1 => simp
  | case2 location covered c rest ih => exact ih
  | case3 location c rest kind length hscan ih =>
      intro piece hpiece token htoken
      rcases mem_cons.mp hpiece with rfl | hpiece
      · cases kind with
        | token kind value =>
            cases htoken
            exact scan_lexical hscan location
        | _ => cases htoken
      · exact ih piece hpiece token htoken

/-! ## Places -/

theorem offset_next (c : Char) : (location.next c).offset = location.offset + 1 := by
  unfold Location.next
  split <;> rfl

theorem offset_after : (location.after text).offset = location.offset + text.length := by
  induction text generalizing location with
  | nil => simp
  | cons c rest ih =>
      rw [Location.after_cons, ih, offset_next, length_cons]
      omega

theorem piecesFrom_offsets :
    (piecesFrom location covered text).Pairwise (·.location.offset < ·.location.offset) ∧
      ∀ piece ∈ piecesFrom location covered text, location.offset ≤ piece.location.offset ∧
        piece.location.offset < location.offset + text.length := by
  fun_induction piecesFrom location covered text with
  | case1 => simp
  | case2 location covered c rest ih =>
      refine ⟨ih.1, fun piece hpiece => ?_⟩
      have hbounds := ih.2 piece hpiece
      rw [offset_next] at hbounds
      rw [length_cons]
      omega
  | case3 location c rest kind length hscan ih =>
      have hlater : ∀ piece ∈ piecesFrom (location.next c) length rest,
          location.offset < piece.location.offset ∧
            piece.location.offset < location.offset + (c :: rest).length := by
        intro piece hpiece
        have hbounds := ih.2 piece hpiece
        rw [offset_next] at hbounds
        rw [length_cons]
        omega
      refine ⟨pairwise_cons.mpr ⟨fun piece hpiece => (hlater piece hpiece).1, ih.1⟩, ?_⟩
      intro piece hpiece
      rcases mem_cons.mp hpiece with rfl | hpiece
      · show location.offset ≤ location.offset ∧
          location.offset < location.offset + (c :: rest).length
        rw [length_cons]
        omega
      · have hbounds := hlater piece hpiece
        omega

end Scan

/-- The tokens of a text, without the end of input. -/
theorem dropLast_tokenize : (tokenize source).dropLast = (pieces source).filterMap token? :=
  dropLast_concat

theorem tokenize_lexical {source : String} (h : token ∈ (tokenize source).dropLast) :
    token.Lexical ∧ token.kind.isGap = false ∧ token.kind ≠ .endOfInput := by
  rw [dropLast_tokenize] at h
  obtain ⟨piece, hpiece, htoken⟩ := mem_filterMap.mp h
  exact piecesFrom_lexical _ _ _ piece hpiece token htoken

theorem Piece.location_of_token? {piece : Piece} (h : piece.token? = some token) :
    token.location = piece.location := by
  obtain ⟨kind, raw, location⟩ := piece
  cases kind <;> cases h
  rfl

theorem tokenize_increasing :
    (tokenize source).Pairwise (·.location.offset < ·.location.offset) := by
  obtain ⟨hordered, hinside⟩ := piecesFrom_offsets Location.start 0 source.toList
  refine pairwise_append.mpr ⟨?_, pairwise_singleton _ _, ?_⟩
  · refine hordered.filterMap _ fun first second hlt token htoken token' htoken' => ?_
    rwa [location_of_token? htoken, location_of_token? htoken']
  · -- The end of input stands behind the whole text.
    intro token htoken last hlast
    obtain ⟨piece, hpiece, htoken⟩ := mem_filterMap.mp htoken
    rw [mem_singleton.mp hlast, location_of_token? htoken, offset_after]
    exact (hinside piece hpiece).2

theorem nodup_location_tokenize : ((tokenize source).map Token.location).Nodup := by
  refine pairwise_map.mpr ((tokenize_increasing source).imp fun hlt heq => ?_)
  rw [heq] at hlt
  exact Int.lt_irrefl _ hlt

theorem tokenize_eq : tokenize source = (tokenize source).dropLast ++
      [⟨.endOfInput, "", "", Location.start.after source.toList⟩] := by
  rw [dropLast_tokenize, tokenize]

theorem ofTokens_concat {tokens : List Token} {last : Token}
    (h : ∀ token ∈ tokens, token.kind.isGap = false ∧ token.kind ≠ .endOfInput)
    (hlast : last.kind = .endOfInput) :
    ofTokens (tokens ++ [last]) =
      ⟨tokens.headD last, tokens, fun token htoken => (h token htoken).2, last, hlast,
        [], 0, []⟩ := by
  have hkept : (tokens ++ [last]).filter (fun token => !token.kind.isGap) = tokens ++ [last] := by
    refine filter_eq_self.mpr fun token htoken => ?_
    rw [mem_append, mem_singleton] at htoken
    rcases htoken with htoken | rfl
    · simp [(h token htoken).1]
    · simp [hlast, TokenKind.isGap]
  exact ofTokens_eq (by simp [meaningful, hkept, hlast]) hlast fun token htoken =>
    (h token htoken).2

theorem ofTokens_tokenize_eq : ofTokens (tokenize source) =
      ⟨(tokenize source).dropLast.headD ⟨.endOfInput, "", "", Location.start.after source.toList⟩,
        (tokenize source).dropLast, fun _ htoken => (tokenize_lexical htoken).2.2,
        ⟨.endOfInput, "", "", Location.start.after source.toList⟩, rfl, [], 0, []⟩ := by
  conv => lhs; rw [tokenize_eq source]
  exact ofTokens_concat (fun token htoken => (tokenize_lexical htoken).2) rfl

theorem ofTokens_tokenize_ahead :
    (ofTokens (tokenize source)).ahead = (tokenize source).dropLast := by
  rw [ofTokens_tokenize_eq]

end ContractAudit
