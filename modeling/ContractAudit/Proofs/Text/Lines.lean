import ContractAudit.Text.Lines
import ContractAudit.Proofs.Token.Tiling

/-!
# Lines between line feeds

The scanner starts a new line only at a line feed. The line around a place is what stands before the
place since the last line feed and behind it up to the next one. In a text whose lines are all ended
by line feeds, these are its lines.
-/

namespace ContractAudit

open List

variable {text : List Char}

namespace Text

/-- Every line of a text is ended by a line feed, with a carriage return before it or without. -/
def FeedsLines : List Char → Prop
  | [] => True
  | c :: rest =>
      (isLineBreak c = true → c = '\n' ∨ c = '\r' ∧ rest.head? = some '\n') ∧ FeedsLines rest

instance decidableFeedsLines : (text : List Char) → Decidable (FeedsLines text)
  | [] => .isTrue trivial
  | _ :: rest =>
      have := decidableFeedsLines rest
      inferInstanceAs (Decidable (_ ∧ _))

theorem eq_nil_of_lines (h : lines text = []) : text = [] := by
  unfold lines at h
  split at h
  · rfl
  · cases h
  · split at h
    · cases h
    · split at h <;> cases h

theorem splitOn_cons_of_not_break {c : Char} (h : ¬isLineBreak c = true) (rest : List Char) :
    (c :: rest).splitOn '\n' = (rest.splitOn '\n').modifyHead (c :: ·) := by
  rw [splitOn_cons_eq_if_modifyHead, if_neg]
  intro hline
  rw [beq_iff_eq.mp hline] at h
  exact h (by decide)

theorem FeedsLines.getD_lines (h : FeedsLines text) (number : Nat) :
    (text.splitOn '\n')[number]?.getD [] = (lines text)[number]?.getD [] ∨
      (text.splitOn '\n')[number]?.getD [] = (lines text)[number]?.getD [] ++ ['\r'] := by
  fun_induction lines text generalizing number with
  | case1 => cases number <;> exact .inl rfl
  | case2 rest ih =>
      have hsplit : ('\r' :: '\n' :: rest).splitOn '\n' = ['\r'] :: rest.splitOn '\n' :=
        splitOn_append_cons_self ['\r'] rest
      cases number with
      | zero => exact .inr rfl
      | succ number => exact ih h.2.2 number
  | case3 c rest hreturn hbreak ih =>
      obtain rfl : c = '\n' := by
        refine (h.1 hbreak).resolve_right fun hpair => ?_
        obtain ⟨rfl, hhead⟩ := hpair
        obtain ⟨tail, rfl⟩ := head?_eq_some_iff.mp hhead
        exact hreturn tail rfl rfl
      cases number with
      | zero => exact .inl rfl
      | succ number => exact ih h.2 number
  | case4 c rest hreturn hbreak hnil ih =>
      obtain rfl := eq_nil_of_lines hnil
      rw [splitOn_cons_of_not_break hbreak]
      cases number <;> exact .inl rfl
  | case5 c rest hreturn hbreak line others hlines ih =>
      rw [splitOn_cons_of_not_break hbreak]
      cases hsplit : rest.splitOn '\n' with
      | nil => exact absurd hsplit (splitOn_ne_nil _ _)
      | cons fed feds =>
          have hih := ih h.2 number
          rw [hsplit, hlines] at hih
          cases number with
          | zero =>
              rcases hih with hih | hih
              · exact .inl (congrArg (c :: ·) hih)
              · exact .inr (congrArg (c :: ·) hih)
          | succ number => exact hih

end Text

theorem notMem_firstLine (text : List Char) : '\n' ∉ firstLine text := by
  intro hmem
  simpa using mem_takeWhile_imp hmem

theorem firstLine_append {front : List Char} (h : '\n' ∉ front) (rest : List Char) :
    firstLine (front ++ rest) = front ++ firstLine rest :=
  takeWhile_append_of_pos fun c hc => by simpa using fun heq : c = '\n' => h (heq ▸ hc)

theorem exists_lastLine (text : List Char) :
    ∃ front, text = front ++ lastLine text ∧ '\n' ∉ lastLine text := by
  refine ⟨(text.reverse.dropWhile (· ≠ '\n')).reverse, ?_, fun hmem => ?_⟩
  · rw [lastLine, ← reverse_append, takeWhile_append_dropWhile, reverse_reverse]
  · simpa using mem_takeWhile_imp (mem_reverse.mp hmem)

theorem lastLine_of_notMem (h : '\n' ∉ text) : lastLine text = text := by
  rw [lastLine, takeWhile_eq_self_iff.mpr, reverse_reverse]
  intro c hc
  simpa using fun heq : c = '\n' => h (heq ▸ mem_reverse.mp hc)

theorem lastLine_cons_of_mem (c : Char) (h : '\n' ∈ text) :
    lastLine (c :: text) = lastLine text := by
  rw [lastLine, reverse_cons, Scan.takeWhile_append_of_mem (mem_reverse.mpr h) (by simp)]
  rfl

theorem lastLine_feed (text : List Char) : lastLine ('\n' :: text) = lastLine text := by
  by_cases h : '\n' ∈ text
  · exact lastLine_cons_of_mem _ h
  · rw [lastLine, reverse_cons, takeWhile_append_of_pos]
    · simp [lastLine_of_notMem h]
    · intro c hc
      simpa using fun heq : c = '\n' => h (heq ▸ mem_reverse.mp hc)

theorem getElem?_splitOn_zero (text : List Char) :
    (text.splitOn '\n')[0]? = some (firstLine text) := by
  induction text with
  | nil => rfl
  | cons c rest ih =>
      rw [splitOn_cons_eq_if_modifyHead]
      by_cases hline : c = '\n'
      · simp [hline, firstLine]
      · rw [if_neg (by simpa using hline), getElem?_modifyHead_zero, ih]
        simp [firstLine, hline]

theorem getElem?_splitOn_append (front rest : List Char) :
    ((front ++ rest).splitOn '\n')[front.count '\n']? =
      some (lastLine front ++ firstLine rest) := by
  induction front with
  | nil => exact getElem?_splitOn_zero rest
  | cons c front ih =>
      rw [cons_append, splitOn_cons_eq_if_modifyHead]
      by_cases hline : c = '\n'
      · rw [if_pos (by simpa using hline), hline, count_cons_self, getElem?_cons_succ, ih,
          lastLine_feed]
      · rw [if_neg (by simpa using hline), count_cons_of_ne hline]
        by_cases hmem : '\n' ∈ front
        · obtain ⟨number, hnumber⟩ := Nat.exists_eq_succ_of_ne_zero
            (Nat.pos_iff_ne_zero.mp (count_pos_iff.mpr hmem))
          rw [hnumber] at ih ⊢
          rw [getElem?_modifyHead_succ, ih, lastLine_cons_of_mem c hmem]
        · rw [count_eq_zero.mpr hmem] at ih ⊢
          rw [getElem?_modifyHead_zero, ih, lastLine_of_notMem hmem, lastLine_of_notMem]
          · rfl
          · simp [hmem, Ne.symm hline]

theorem exists_of_getElem?_splitOn {line : List Char} {number : Nat}
    (h : (text.splitOn '\n')[number]? = some line) :
    ∃ front rest, text = front ++ rest ∧ front.count '\n' = number ∧ line = firstLine rest := by
  induction text generalizing number with
  | nil =>
      cases number with
      | zero => exact ⟨[], [], rfl, rfl, (Option.some_inj.mp h).symm⟩
      | succ number => cases h
  | cons c rest ih =>
      cases number with
      | zero =>
          rw [getElem?_splitOn_zero] at h
          exact ⟨[], c :: rest, rfl, rfl, (Option.some_inj.mp h).symm⟩
      | succ number =>
          rw [splitOn_cons_eq_if_modifyHead] at h
          by_cases hline : c = '\n'
          · rw [if_pos (by simpa using hline), getElem?_cons_succ] at h
            obtain ⟨front, tail, rfl, hcount, hfirst⟩ := ih h
            exact ⟨c :: front, tail, rfl, by rw [hline, count_cons_self, hcount], hfirst⟩
          · rw [if_neg (by simpa using hline), getElem?_modifyHead_succ] at h
            obtain ⟨front, tail, rfl, hcount, hfirst⟩ := ih h
            exact ⟨c :: front, tail, rfl, by rw [count_cons_of_ne hline, hcount], hfirst⟩

end ContractAudit
