import ContractAudit.Text.Numeral
import Mathlib.Data.List.TakeDrop
import Mathlib.Data.List.TakeWhile

/-!
# Numerals read back

A run of decimal digits is read if it is not too long, whatever their scripts. The decimal digits of
an integer denote that integer, so that a printed integer is read back.
-/

namespace ContractAudit.Text.Numeral

open List String Nat Bool

variable {c : Char} {text : List Char}

def AllDigits (text : List Char) : Prop :=
  ∀ c ∈ text, c.isDigit = true

theorem toNat_of_isDigit (h : c.isDigit = true) : 48 ≤ c.toNat ∧ c.toNat ≤ 57 := by
  simp only [Char.isDigit, and_eq_true, decide_eq_true_eq] at h
  exact ⟨h.1, h.2⟩

theorem decimalValue?_of_isDigit (h : c.isDigit = true) :
    decimalValue? c = some (c.toNat - '0'.toNat) := by
  obtain ⟨hlow, hhigh⟩ := toNat_of_isDigit h
  have hfind : decimalTable.find? c.toNat = some (0x30, 0x39) := by
    unfold decimalTable RangeTable.find?
    simp [hlow, hhigh]
  rw [decimalValue?, hfind]
  simp only [Option.map_some]
  congr 1
  show (c.toNat - 48) % 10 = c.toNat - 48
  omega

def AllDecimal (text : List Char) : Prop :=
  ∀ c ∈ text, (decimalValue? c).isSome = true

theorem AllDigits.allDecimal (h : AllDigits text) : AllDecimal text := by
  intro c hc
  rw [decimalValue?_of_isDigit (h c hc)]
  rfl

theorem ne_of_decimal {d : Char} (hc : (decimalValue? c).isSome = true)
    (hd : (decimalValue? d).isSome = false) : c ≠ d := by
  rintro rfl
  rw [hc] at hd
  cases hd

theorem isBlank_of_isPad (h : isPad c = true) : isBlank c = true := by
  simp only [isPad, or_eq_true, and_eq_true, decide_eq_true_eq] at h
  rcases h with (⟨hlow, hhigh⟩ | rfl) | ⟨_, hblank⟩
  · simp [isBlank, blankTable, RangeTable.contains, hlow, hhigh]
  · rfl
  · exact hblank

/-- No decimal digit is a blank: the ranges of the two tables do not meet. -/
theorem isPad_of_decimal (h : (decimalValue? c).isSome = true) : isPad c = false := by
  have hapart : ∀ range ∈ decimalTable, ∀ blank ∈ blankTable,
      range.2 < blank.1 ∨ blank.2 < range.1 := by
    decide
  rw [eq_false_iff]
  intro hpad
  have hblank := isBlank_of_isPad hpad
  simp only [isBlank, RangeTable.contains, any_eq_true, and_eq_true,
    decide_eq_true_eq] at hblank
  simp only [decimalValue?, RangeTable.find?, Option.isSome_map, find?_isSome,
    and_eq_true, decide_eq_true_eq] at h
  obtain ⟨range, hrange, hc⟩ := h
  obtain ⟨blank, hmem, hc'⟩ := hblank
  have := hapart range hrange blank hmem
  omega

section

variable (h : AllDecimal text)

include h

theorem wellGrouped_of_allDecimal (hne : text ≠ []) : wellGrouped text = true := by
  fun_induction wellGrouped text with
  | case1 => exact absurd rfl hne
  | case2 c => simpa using ne_of_decimal (h c (by simp)) (d := '_') (by decide)
  | case3 c d rest _ ih =>
      have hc := ne_of_decimal (h c (by simp)) (d := '_') (by decide)
      have hd := ne_of_decimal (h d (by simp)) (d := '_') (by decide)
      rw [if_neg hd, ih (fun e he => h e (mem_cons_of_mem c he)) (by simp)]
      simpa using hc

theorem length_filterMap_decimal : (text.filterMap decimalValue?).length = text.length := by
  rw [length_filterMap_eq_countP, countP_eq_length]
  exact h

theorem span_allDecimal :
    text.span (fun c => c = '_' || (decimalValue? c).isSome) = (text, []) := by
  have hall : ∀ c ∈ text, (c = '_' || (decimalValue? c).isSome) = true := by
    intro c hc
    simp [h c hc]
  rw [span_eq_takeWhile_dropWhile, takeWhile_eq_self_iff.mpr hall, dropWhile_eq_nil_iff.mpr hall]

/-- A run of decimal digits, with a minus in front of it or not, is read unless it is too long. -/
theorem read_decimal (hne : text ≠ []) (negative : Bool) :
    read (ofList (if negative then '-' :: text else text)) =
      if maxDigits < text.length then .error (.tooLong text.length)
      else .ok (if negative then -(value (text.filterMap decimalValue?) : Int)
        else value (text.filterMap decimalValue?)) := by
  have hsign : splitSign (trimStart isPad (if negative then '-' :: text else text)) =
      (negative, text) := by
    cases negative with
    | true => rfl
    | false =>
        obtain ⟨c, rest, rfl⟩ := exists_cons_of_ne_nil hne
        have hc := h c (by simp)
        rw [if_neg (by simp), trimStart, dropWhile_cons_of_neg (by simp [isPad_of_decimal hc])]
        unfold splitSign
        split
        · next heq => cases heq; exact absurd rfl (ne_of_decimal hc (d := '-') (by decide))
        · next heq => cases heq; exact absurd rfl (ne_of_decimal hc (d := '+') (by decide))
        · rfl
  simp only [read, toList_ofList, hsign, span_allDecimal h]
  rw [wellGrouped_of_allDecimal h hne, length_filterMap_decimal h]
  rfl

theorem read_unsigned (hne : text ≠ []) : read (ofList text) =
      if maxDigits < text.length then .error (.tooLong text.length)
      else .ok (value (text.filterMap decimalValue?)) :=
  read_decimal h hne false

theorem read_allDecimal (hne : text ≠ []) (hshort : text.length ≤ maxDigits) :
    read (ofList text) = .ok (value (text.filterMap decimalValue?)) ∧
      read (ofList ('-' :: text)) = .ok (-(value (text.filterMap decimalValue?) : Int)) := by
  have hread := read_decimal h hne
  simp only [if_neg (Nat.not_lt.mpr hshort)] at hread
  exact ⟨hread false, hread true⟩

end

theorem filterMap_decimalValue? (h : AllDigits text) :
    text.filterMap decimalValue? = text.map fun c => c.toNat - '0'.toNat := by
  induction text with
  | nil => rfl
  | cons c rest ih =>
      rw [filterMap_cons_some (decimalValue?_of_isDigit (h c (by simp))),
        ih fun d hd => h d (mem_cons_of_mem c hd), map_cons]

theorem value_map (text : List Char) :
    value (text.map fun c => c.toNat - '0'.toNat) = ofDigitChars 10 text 0 := by
  rw [value, ofDigitChars_eq_foldl, foldl_map]

theorem read_allDigits (h : AllDigits text) (hne : text ≠ []) (hshort : text.length ≤ maxDigits) :
    read (ofList text) = .ok (ofDigitChars 10 text 0) ∧
      read (ofList ('-' :: text)) = .ok (-(ofDigitChars 10 text 0 : Int)) := by
  have hread := read_allDecimal h.allDecimal hne hshort
  rwa [filterMap_decimalValue? h, value_map] at hread

theorem allDigits_toDigits (n : Nat) : AllDigits (toDigits 10 n) :=
  fun _ hc => isDigit_of_mem_toDigits (by decide) (by decide) hc

theorem toString_cases (value : Int) :
    (0 ≤ value ∧ toString value = ofList (toDigits 10 value.natAbs)) ∨
      (value < 0 ∧ toString value = ofList ('-' :: toDigits 10 value.natAbs)) := by
  cases value with
  | ofNat n => exact .inl ⟨Int.natCast_nonneg n, toString_eq_ofList_toDigits⟩
  | negSucc n =>
      refine .inr ⟨Int.negSucc_lt_zero n, ?_⟩
      show "-" ++ toString (n + 1) = _
      rw [toString_eq_ofList_toDigits, ofList_cons]
      rfl

/-- A printed integer is read back. -/
theorem read_toString {value : Int} (h : (toString value.natAbs).length ≤ maxDigits) :
    read (toString value) = .ok value := by
  rw [toString_eq_ofList_toDigits, length_ofList] at h
  have hread := read_allDigits (allDigits_toDigits value.natAbs) toDigits_ne_nil h
  rw [ofDigitChars_ten_toDigits] at hread
  rcases toString_cases value with ⟨hsign, htext⟩ | ⟨hsign, htext⟩
  · rw [htext, hread.1, Int.natAbs_of_nonneg hsign]
  · rw [htext, hread.2, Int.ofNat_natAbs_of_nonpos (by omega), Int.neg_neg]

end ContractAudit.Text.Numeral
