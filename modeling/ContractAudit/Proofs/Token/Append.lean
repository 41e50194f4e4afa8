import ContractAudit.Proofs.Syntax.Move
import ContractAudit.Proofs.Token.Names

/-!
# Tokens of two texts, one behind the other

A text whose last line is ended, and whose last token is no string that was never closed, is cut
into the same pieces whatever follows it: every piece but such a string stops at a line feed. What
follows is cut as it would be by itself, at moved places.
-/

namespace ContractAudit

open List Location Nat Option Scan

variable (location : Location) (text : List Char)

namespace Scan

variable {c : Char} {rest : List Char} (d : Displacement)

/-! ## Pieces that end in the text -/

theorem takeWhile_append_of_mem {p : Char → Bool} {text : List Char} (hmem : c ∈ text)
    (hc : p c = false) (more : List Char) : (text ++ more).takeWhile p = text.takeWhile p := by
  rw [takeWhile_append, if_neg]
  intro hlength
  have hall : text.takeWhile p = text := (takeWhile_sublist p).eq_of_length hlength
  have hp : p c = true := mem_takeWhile_imp (hall.symm ▸ hmem)
  rw [hc] at hp
  cases hp

theorem scanString_append (more : List Char) :
    scanString (text ++ more) = scanString text ∨ (scanString text).2 = text.length := by
  fun_induction scanString text with
  | case1 => exact .inr rfl
  | case2 rest => exact .inl rfl
  | case3 c rest ih =>
      rcases ih with ih | ih
      · exact .inl (by simp [scanString, ih])
      · exact .inr (by simp [ih])
  | case4 c rest hquote hescape ih =>
      by_cases hbackslash : c = '\\'
      · cases rest with
        | nil => exact .inr rfl
        | cons d rest => exact absurd rfl (hescape d rest hbackslash)
      · rcases ih with ih | ih
        · exact .inl (by rw [cons_append, scanString_cons hquote hbackslash, ih])
        · exact .inr (by simp [ih])

theorem scanString_length_le : (scanString text).2 ≤ text.length := by
  fun_induction scanString text with
  | case1 => exact le_refl _
  | case2 rest => simp
  | case3 c rest ih => simpa using ih
  | case4 c rest hquote hescape ih => simpa using ih

theorem scan_length_le (c : Char) (rest : List Char) : (scan c rest).2 ≤ rest.length := by
  have htake (p : Char → Bool) (text : List Char) : (text.takeWhile p).length ≤ text.length :=
    (takeWhile_sublist p).length_le
  unfold scan
  split
  · exact zero_le _
  split
  · exact htake _ rest
  split
  · exact zero_le _
  split
  · exact scanString_length_le rest
  split
  · next hquote =>
      cases rest with
      | nil => simp at hquote
      | cons d rest => exact succ_le_succ (scanString_length_le rest)
  split
  · exact htake _ rest
  split
  · next hmark =>
      cases rest with
      | nil => simp at hmark
      | cons d rest => exact succ_le_succ (htake _ rest)
  -- Numbers, principals and words take up the characters of one class.
  iterate 4
    split
    · exact htake _ rest
  exact zero_le _

theorem scan_append_of_line {d : Char} (hmem : '\n' ∈ d :: rest)
    (hquote : c ≠ '"') (hutf : ¬(c = 'u' ∧ d = '"')) (more : List Char) :
    scan c (d :: rest ++ more) = scan c (d :: rest) := by
  have hline {p : Char → Bool} (hp : p '\n' = false) :
      (d :: rest ++ more).takeWhile p = (d :: rest).takeWhile p :=
    takeWhile_append_of_mem hmem hp more
  have hhead : (d :: rest ++ more).head? = (d :: rest).head? := rfl
  have hdigit : startsWithDigit (d :: rest ++ more) = startsWithDigit (d :: rest) := rfl
  have hutf' : ¬((c = 'u' && (d :: rest).head? = some '"') = true) := by simpa using hutf
  -- The mark of a byte buffer is no line feed, so there is one behind it.
  have hhex : (c = '0' && ((d :: rest).head? = some 'x' || (d :: rest).head? = some 'X')) = true →
      (d :: rest ++ more).tail.takeWhile isHexDigit = (d :: rest).tail.takeWhile isHexDigit := by
    intro hmark
    have hne : '\n' ≠ d := by
      rintro rfl
      simp at hmark
    have hbehind : '\n' ∈ rest := (mem_cons.mp hmem).resolve_left hne
    exact takeWhile_append_of_mem hbehind (by decide) more
  rw [scan, scan, hhead, hdigit, hline (p := (· ≠ '\n')) (by decide),
    hline (p := Text.isDigit) (by decide), hline (p := isPrincipalChar) (by decide),
    hline (p := isNameChar) (by decide), if_neg hquote, if_neg hquote, if_neg hutf', if_neg hutf']
  split
  · rfl
  split
  · rfl
  split
  · rfl
  split
  · rfl
  split
  · next hmark => rw [hhex hmark]
  · rfl

theorem scan_append (hend : (c :: rest).getLast? = some '\n') (more : List Char) :
    scan c (rest ++ more) = scan c rest ∨
      ∃ kind value, scan c rest = (.token kind value, rest.length) ∧
        (kind = .stringAscii ∨ kind = .stringUtf8) := by
  by_cases hblank : Text.isBlank c = true
  · exact .inl (by rw [scan, scan, if_pos hblank, if_pos hblank])
  -- Something stands before the line feed.
  cases rest with
  | nil =>
      obtain rfl : c = '\n' := by simpa using hend
      exact absurd (by decide) hblank
  | cons d rest =>
      have hmem : '\n' ∈ d :: rest := mem_of_getLast? (by simpa using hend)
      by_cases hquote : c = '"'
      · subst hquote
        have hscan (text : List Char) :
            scan '"' text = (.token .stringAscii (scanString text).1, (scanString text).2) := rfl
        rw [hscan, hscan]
        rcases scanString_append (d :: rest) more with hclosed | hopen
        · exact .inl (by rw [hclosed])
        · exact .inr ⟨_, _, by rw [hopen], .inl rfl⟩
      by_cases hutf : c = 'u' ∧ d = '"'
      · obtain ⟨rfl, rfl⟩ := hutf
        have hscan (text : List Char) : scan 'u' ('"' :: text) =
            (.token .stringUtf8 (scanString text).1, (scanString text).2 + 1) := rfl
        rw [cons_append, hscan, hscan]
        rcases scanString_append rest more with hclosed | hopen
        · exact .inl (by rw [hclosed])
        · exact .inr ⟨_, _, by rw [hopen, length_cons], .inr rfl⟩
      exact .inl (scan_append_of_line hmem hquote hutf more)

/-! ## Pieces of two texts -/

theorem piecesFrom_cons (c : Char) (rest : List Char) : piecesFrom location 0 (c :: rest) =
      ⟨(scan c rest).1, c :: rest.take (scan c rest).2, location⟩ ::
        piecesFrom (location.next c) (scan c rest).2 rest := rfl

def EndsClosed (tokens : List Token) : Prop :=
  ∀ token ∈ tokens.getLast?, token.kind ≠ .stringAscii ∧ token.kind ≠ .stringUtf8

theorem EndsClosed.tail {first rest : List Token} (h : EndsClosed (first ++ rest)) :
    EndsClosed rest := by
  intro token htoken
  refine h token ?_
  rw [mem_def] at htoken ⊢
  rw [getLast?_append, htoken, some_or]

theorem piecesFrom_append {location : Location} {covered : Nat} {text : List Char}
    (hend : ∀ c ∈ text.getLast?, c = '\n') (hcovered : covered ≤ text.length)
    (hclosed : EndsClosed ((piecesFrom location covered text).filterMap Piece.token?))
    (more : List Char) :
    piecesFrom location covered (text ++ more) =
      piecesFrom location covered text ++ piecesFrom (location.after text) 0 more := by
  induction text generalizing location covered with
  | nil =>
      obtain rfl := le_zero.mp hcovered
      rfl
  | cons c rest ih =>
      have hrest : ∀ d ∈ rest.getLast?, d = '\n' := by
        intro d hd
        refine hend d ?_
        rw [mem_def] at hd ⊢
        rw [getLast?_cons, hd, getD_some]
      cases covered with
      | succ covered => exact ih hrest (le_of_succ_le_succ hcovered) hclosed
      | zero =>
          have hline : (c :: rest).getLast? = some '\n' := by
            have hlast := getLast?_eq_some_getLast (cons_ne_nil c rest)
            rw [hlast, hend _ hlast]
          rw [piecesFrom_cons, ← singleton_append, filterMap_append] at hclosed
          rcases scan_append hline more with hsame | ⟨kind, value, hscan, hstring⟩
          · have hlength := scan_length_le c rest
            rw [cons_append, piecesFrom_cons, piecesFrom_cons, hsame,
              ih hrest hlength hclosed.tail, take_append_of_le_length hlength,
              cons_append, after_cons]
          · -- A string that runs to the end would be the last token.
            have hnone := piecesFrom_length (location.next c) rest []
            rw [append_nil] at hnone
            rw [hscan, hnone] at hclosed
            obtain ⟨hascii, hutf⟩ := hclosed _ rfl
            exact absurd hstring (not_or.mpr ⟨hascii, hutf⟩)

/-! ## Pieces of a text that is moved -/

theorem piecesFrom_move (location : Location) (covered : Nat) (text : List Char) :
    piecesFrom (location.move d) covered text = (piecesFrom location covered text).map fun piece =>
        { piece with location := piece.location.move d } := by
  fun_induction piecesFrom location covered text with
  | case1 => rfl
  | case2 location covered c rest ih => rw [piecesFrom, next_move, ih]
  | case3 location c rest kind length hscan ih =>
      rw [piecesFrom_cons, next_move, hscan, ih, map_cons]

theorem tokensFrom_move (location : Location) (text : List Char) :
    tokensFrom (location.move d) text = (tokensFrom location text).map (Token.move d) := by
  unfold tokensFrom
  rw [piecesFrom_move, filterMap_map, map_filterMap]
  congr 1
  funext piece
  obtain ⟨kind, raw, location⟩ := piece
  cases kind <;> rfl

end Scan

/-! ## Places behind a text -/

theorem Location.line_after : (location.after text).line = location.line + text.count '\n' := by
  induction text generalizing location with
  | nil => simp
  | cons c rest ih =>
      rw [after_cons, ih, count_cons]
      unfold next
      split
      · next hline => simp [hline]; omega
      · next hline => simp [hline]

theorem Location.column_after {text : List Char} (h : text.getLast? = some '\n')
    (location : Location) : (location.after text).column = 1 := by
  obtain ⟨front, rfl⟩ := getLast?_eq_some_iff.mp h
  rw [after_append]
  rfl

def Displacement.behind (source : String) (nodes : Nat) : Displacement :=
  ⟨source.toList.count '\n', source.length, nodes⟩

theorem Location.after_start {source : String} (h : source.toList.getLast? = some '\n')
    (nodes : Nat) :
    start.after source.toList = start.move (.behind source nodes) := by
  have hline := line_after .start source.toList
  have hcolumn := column_after h .start
  have hoffset := offset_after .start source.toList
  rw [move, mk.injEq]
  exact ⟨hline, hcolumn, hoffset⟩

/-! ## Tokens of two texts -/

theorem tokenize_append {first : String} (hend : first.toList.getLast? = some '\n')
    (hclosed : Scan.EndsClosed (tokenize first).dropLast) (nodes : Nat) (second : String) :
    tokenize (first ++ second) =
      (tokenize first).dropLast ++ (tokenize second).map (Token.move (.behind first nodes)) := by
  rw [dropLast_tokenize] at hclosed ⊢
  have hpieces : pieces (first ++ second) =
      pieces first ++ piecesFrom (start.after first.toList) 0 second.toList := by
    rw [pieces, String.toList_append]
    exact piecesFrom_append (fun c hc => some_inj.mp (hc.symm.trans hend))
      (zero_le _) hclosed _
  have htokens := tokensFrom_move (.behind first nodes) .start second.toList
  unfold tokensFrom at htokens
  rw [tokenize, hpieces, filterMap_append, after_start hend nodes, htokens,
    String.toList_append, after_append, after_start hend nodes,
    after_move, tokenize, map_append, append_assoc]
  rfl

end ContractAudit
