import ContractAudit.Proofs.Suppression.Directive
import ContractAudit.Proofs.Table
import ContractAudit.Proofs.Text.Lines

/-!
# Directives in comments

Directives are looked for line by line, and comments are found by the scanner. The two do not agree
on every text: a directive may stand in a string, and lines may be ended by other characters than
line feeds. Where neither is so, a code is silenced on a line exactly if a comment on that line or
the one before lists it in its first directive.
-/

namespace ContractAudit

open List

variable {line other : Int} {front rest : List Char} {comment : Piece} {code source : String}
  {directive : Directive}

/-! ## Codes of a line -/

namespace Suppressions

variable (suppressions : Suppressions)

def codesOn (suppressions : Suppressions) (line : Int) : List String :=
  (suppressions.onLine.get? line).getD []

theorem mem_codesOn_addOnLine {suppressions : Suppressions} {given : String} :
    code ∈ (suppressions.addOnLine line given).codesOn other ↔
      code ∈ suppressions.codesOn other ∨ other = line ∧ code = given := by
  unfold codesOn addOnLine
  by_cases hline : other = line
  · subst hline
    simp [Table.get?_insert_self, mem_addNew]
  · simp [Table.get?_insert_of_ne _ _ hline, hline]

/-- A directive silences its codes on its line and the next one. -/
theorem mem_codesOn_foldl {codes : List String} : code ∈ (codes.foldl (fun suppressions given =>
        (suppressions.addOnLine line given).addOnLine (line + 1) given)
          suppressions).codesOn other ↔
      code ∈ suppressions.codesOn other ∨ (other = line ∨ other = line + 1) ∧ code ∈ codes := by
  induction codes generalizing suppressions with
  | nil => simp
  | cons given codes ih =>
      rw [foldl_cons, ih, mem_codesOn_addOnLine, mem_codesOn_addOnLine, mem_cons]
      grind

theorem mem_codesOn_foldl_lines {lines : List (List Char)} {first : Nat} :
    code ∈ ((lines.zipIdx first).foldl (fun suppressions (line, number) =>
        (codesIn line).foldl (fun suppressions given =>
          (suppressions.addOnLine number given).addOnLine (number + 1) given) suppressions)
        suppressions).codesOn other ↔
      code ∈ suppressions.codesOn other ∨
        ∃ number : Nat, (other = first + number ∨ other = first + number + 1) ∧
          code ∈ codesIn (lines[number]?.getD []) := by
  induction lines generalizing first suppressions with
  | nil => simp [codesIn]
  | cons line lines ih =>
      rw [zipIdx_cons, foldl_cons, ih, mem_codesOn_foldl, or_assoc]
      refine or_congr_right ?_
      constructor
      · rintro (⟨hline, hcode⟩ | ⟨number, hline, hcode⟩)
        · exact ⟨0, by simpa using hline, hcode⟩
        · exact ⟨number + 1, by omega, hcode⟩
      · rintro ⟨number, hline, hcode⟩
        cases number with
        | zero => exact .inl ⟨by simpa using hline, hcode⟩
        | succ number => exact .inr ⟨number, by omega, hcode⟩

theorem mem_codesOn_addDirectives : code ∈ (none.addDirectives source).codesOn line ↔
      ∃ number : Nat, (line = number + 1 ∨ line = number + 2) ∧
        code ∈ codesIn ((Text.lines source.toList)[number]?.getD []) := by
  unfold addDirectives
  rw [mem_codesOn_foldl_lines]
  have hnone : code ∉ none.codesOn line := not_mem_nil
  rw [or_iff_right hnone]
  refine exists_congr fun number => and_congr_left fun _ => ?_
  push_cast
  omega

theorem everywhere_addDirectives (source : String) :
    (suppressions.addDirectives source).everywhere = suppressions.everywhere := by
  let Same (given : Suppressions) : Prop := given.everywhere = suppressions.everywhere
  refine foldlRecOn (motive := Same) _ _ rfl ?_
  rintro given hgiven ⟨line, number⟩ _
  refine foldlRecOn (motive := Same) _ _ hgiven ?_
  intro given hgiven code _
  exact hgiven

theorem isSuppressed_addDirectives {location : Location} :
    (none.addDirectives source).isSuppressed code (some location) = true ↔
      silences ((none.addDirectives source).codesOn location.line) code = true := by
  have hnone : silences none.everywhere code = false := rfl
  rw [isSuppressed, everywhere_addDirectives, hnone, Bool.false_or]
  rfl

end Suppressions

open Suppressions

/-! ## Comments of a line -/

theorem Suppressions.Directive.Opens.head?_eq {text : List Char} (h : directive.Opens text) :
    text.head? = some ';' := by
  obtain ⟨rest, rfl, _⟩ := h
  obtain ⟨c, marks, hmarks⟩ := exists_cons_of_ne_nil directive.marks_ne
  have hc := directive.marks_semicolon c (by simp [hmarks])
  rw [Directive.written, hmarks, hc]
  rfl

/-- No directive starts in a token and goes on to the end of the line. -/
def Token.Silent (token : Token) (text : List Char) : Prop :=
  ∀ index < token.raw.length, ∀ directive : Directive,
    ¬directive.Opens (firstLine (text.drop (token.location.offset.toNat + index)))

instance decidableSilent (token : Token) (text : List Char) : Decidable (token.Silent text) :=
  decidable_of_iff (∀ index < token.raw.length,
      codesAt? (firstLine (text.drop (token.location.offset.toNat + index))) = Option.none)
    (forall_congr' fun _ => imp_congr_right fun _ => codesAt?_eq_none_iff)

theorem comment_before (hpiece : comment ∈ pieces source) (hkind : comment.kind = .comment)
    (htext : source.toList = front ++ rest)
    (hcovers : comment.location.Covers comment.raw.length front.length) :
    ∃ start reach, front = start ++ reach ∧ '\n' ∉ reach ∧
      comment.location = Location.start.after start ∧ comment.raw = reach ++ firstLine rest := by
  obtain ⟨start, tail, hstart, hlocation, hraw⟩ := (pieces_cutOut hpiece).comment hkind
  have hoffset : comment.location.offset = start.length := by
    rw [hlocation, Location.offset_after_start]
  obtain ⟨hfrom, hto⟩ := hcovers
  obtain ⟨reach, rfl⟩ : start <+: front :=
    prefix_of_prefix_length_le ⟨_, hstart.symm⟩ ⟨_, htext.symm⟩ (by omega)
  rw [hstart, append_assoc, append_cancel_left_eq] at htext
  rw [htext] at hraw
  have hreach : '\n' ∉ reach := by
    intro hmem
    rw [firstLine, Scan.takeWhile_append_of_mem hmem (by simp)] at hraw
    have hle := (takeWhile_sublist (l := reach) (· ≠ '\n')).length_le
    rw [← hraw] at hle
    rw [length_append] at hto
    omega
  exact ⟨start, reach, rfl, hreach, hlocation, by rw [hraw, firstLine_append hreach]⟩

theorem line_of_comment {start : List Char} (h : comment.location = Location.start.after start) :
    comment.location.line = start.count '\n' + 1 := by
  rw [h, Location.line_after]
  exact Int.add_comm _ _

section Silent

variable (hsilent : ∀ token ∈ tokenize source, token.Silent source.toList) {number : Nat}

include hsilent

theorem comment_of_directive (htext : source.toList = front ++ rest)
    (hopens : directive.Opens (firstLine rest)) :
    ∃ comment ∈ pieces source, comment.kind = .comment ∧
      comment.location.Covers comment.raw.length front.length := by
  obtain ⟨tail, rfl⟩ : ∃ tail, rest = ';' :: tail := by
    have hhead := hopens.head?_eq
    cases rest with
    | nil => cases hhead
    | cons c tail =>
        by_cases hline : c = '\n'
        · simp [firstLine, hline] at hhead
        · rw [firstLine, takeWhile_cons_of_pos (by simpa using hline)] at hhead
          exact ⟨tail, by rw [Option.some_inj.mp hhead]⟩
  obtain ⟨piece, hpiece, hcovers⟩ : ∃ piece ∈ pieces source,
      piece.location.Covers piece.raw.length front.length := exists_piece (by simp [htext])
  have hc : source.toList[front.length]? = some ';' := by simp [htext]
  rcases (pieces_cutOut hpiece).cases hcovers hc with hblank | hkind | ⟨token, htoken⟩ | hunknown
  · exact absurd hblank (by decide)
  · exact ⟨piece, hpiece, hkind, hcovers⟩
  · have hmem : token ∈ tokenize source := mem_tokenize_iff.mpr (.inl ⟨piece, hpiece, htoken⟩)
    rw [← Piece.location_of_token? htoken, ← Piece.length_of_token? htoken] at hcovers
    obtain ⟨start, _, hlocation, _⟩ := tokenize_holds hmem
    have hoffset : token.location.offset = start := by rw [hlocation]; rfl
    obtain ⟨hfrom, hto⟩ := hcovers
    have hplace : token.location.offset.toNat + (front.length - start) = front.length := by omega
    have hquiet := hsilent token hmem (front.length - start) (by omega) directive
    rw [hplace, htext, drop_left] at hquiet
    exact absurd hopens hquiet
  · exact absurd rfl hunknown.2.1

theorem codesIn_of_comment (hpiece : comment ∈ pieces source) (hkind : comment.kind = .comment)
    (hline : comment.location.line = number + 1) :
    codesIn ((source.toList.splitOn '\n')[number]?.getD []) = codesIn comment.raw := by
  obtain ⟨start, tail, htext, hlocation, hraw⟩ := (pieces_cutOut hpiece).comment hkind
  obtain rfl : start.count '\n' = number := by
    rw [line_of_comment hlocation] at hline
    omega
  have hsplit := getElem?_splitOn_append start (';' :: tail)
  rw [← htext, ← hraw] at hsplit
  rw [hsplit, Option.getD_some]
  refine codesIn_append fun first second hlast hne => codesAt?_eq_none_iff.mpr ?_
  -- A directive that starts before the comment would be in another comment, which ends only with
  -- the line.
  intro directive hopens
  obtain ⟨front, hfront, hfeed⟩ := exists_lastLine start
  rw [hlast] at hfront hfeed
  have hplace : source.toList = (front ++ first) ++ (second ++ ';' :: tail) := by
    rw [htext, hfront]
    simp
  have hsecond : '\n' ∉ second := fun hmem => hfeed (mem_append_right _ hmem)
  have hrest : firstLine (second ++ ';' :: tail) = second ++ comment.raw := by
    rw [firstLine_append hsecond, hraw]
  rw [← hrest] at hopens
  obtain ⟨other, hother, hkind', hcovers⟩ := comment_of_directive hsilent hplace hopens
  obtain ⟨start', reach, hstart', _, hlocation', hraw'⟩ :=
    comment_before hother hkind' hplace hcovers
  have hoffset : comment.location.offset = start.length := by
    rw [hlocation, Location.offset_after_start]
  have hoffset' : other.location.offset = start'.length := by
    rw [hlocation', Location.offset_after_start]
  have hlength := congrArg length hfront
  have hlength' := congrArg length hstart'
  have hlength'' := congrArg length hraw'
  have hpositive : 0 < comment.raw.length := by
    rw [hraw, firstLine, takeWhile_cons_of_pos (by decide)]
    exact Nat.succ_pos _
  have hsecond_pos := length_pos_of_ne_nil hne
  rw [hrest] at hlength''
  simp only [length_append] at hlength hlength' hlength''
  have hsame : other = comment :=
    (pieces_cut source).unique start.length hother hpiece ⟨by omega, by omega⟩ ⟨by omega, by omega⟩
  rw [hsame, hoffset] at hoffset'
  omega

theorem comment_of_codesIn (h : codesIn ((source.toList.splitOn '\n')[number]?.getD []) ≠ []) :
    ∃ comment ∈ pieces source, comment.kind = .comment ∧ comment.location.line = number + 1 := by
  cases hline : (source.toList.splitOn '\n')[number]? with
  | none =>
      rw [hline] at h
      exact absurd rfl h
  | some line =>
      rw [hline, Option.getD_some] at h
      obtain ⟨first, second, hsplit, hcodes⟩ := exists_codesAt? h
      obtain ⟨codes, hcodes⟩ := Option.ne_none_iff_exists'.mp hcodes
      obtain ⟨directive, hopens, _⟩ := codesAt?_eq_some_iff.mp hcodes
      obtain ⟨front, rest, htext, hnumber, rfl⟩ := exists_of_getElem?_splitOn hline
      have hfeed := notMem_firstLine rest
      rw [hsplit] at hfeed
      have hplace : source.toList = (front ++ first) ++ (second ++ rest.dropWhile (· ≠ '\n')) := by
        rw [htext, append_assoc, ← append_assoc first, ← hsplit]
        exact congrArg (front ++ ·) takeWhile_append_dropWhile.symm
      have hrest : firstLine (second ++ rest.dropWhile (· ≠ '\n')) = second := by
        refine Scan.takeWhile_append_of_stops (fun c hc => ?_) (stops_dropWhile _ rest)
        simpa using fun heq : c = '\n' => hfeed (mem_append_right _ (heq ▸ hc))
      rw [← hrest] at hopens
      obtain ⟨comment, hpiece, hkind, hcovers⟩ := comment_of_directive hsilent hplace hopens
      obtain ⟨start, reach, hstart, hreach, hlocation, _⟩ :=
        comment_before hpiece hkind hplace hcovers
      refine ⟨comment, hpiece, hkind, ?_⟩
      -- No line feed stands between the start of the line, that of the comment, and the directive.
      have hfirst : '\n' ∉ first := fun hmem => hfeed (mem_append_left _ hmem)
      have hcount := congrArg (count '\n') hstart
      rw [count_append, count_append, count_eq_zero.mpr hfirst, count_eq_zero.mpr hreach] at hcount
      rw [line_of_comment hlocation]
      omega

theorem mem_codesOn_iff_comment (hlines : Text.FeedsLines source.toList) :
    code ∈ (Suppressions.none.addDirectives source).codesOn line ↔
      ∃ comment ∈ pieces source, comment.kind = .comment ∧
        (comment.location.line = line ∨ comment.location.line + 1 = line) ∧
        code ∈ codesIn comment.raw := by
  rw [mem_codesOn_addDirectives]
  have hfed (number : Nat) : codesIn ((Text.lines source.toList)[number]?.getD []) =
      codesIn ((source.toList.splitOn '\n')[number]?.getD []) := by
    rcases hlines.getD_lines number with heq | heq
    · rw [heq]
    · rw [heq, codesIn_concat]
  simp only [hfed]
  constructor
  · rintro ⟨number, hnumber, hcode⟩
    obtain ⟨comment, hpiece, hkind, hline⟩ :=
      comment_of_codesIn hsilent (ne_nil_of_mem hcode)
    rw [codesIn_of_comment hsilent hpiece hkind hline] at hcode
    exact ⟨comment, hpiece, hkind, by omega, hcode⟩
  · rintro ⟨comment, hpiece, hkind, hline, hcode⟩
    obtain ⟨start, _, _, hlocation, _⟩ := (pieces_cutOut hpiece).comment hkind
    have hnumber := line_of_comment hlocation
    refine ⟨start.count '\n', by omega, ?_⟩
    rwa [codesIn_of_comment hsilent hpiece hkind hnumber]

end Silent

/-- If lines are ended by line feeds and no directive starts in a token, the codes silenced on a
line are those that the comments on it and on the line before list first. -/
theorem isSuppressed_iff_comment {source : String} (hlines : Text.FeedsLines source.toList)
    (hsilent : ∀ token ∈ tokenize source, token.Silent source.toList) (code : String)
    (location : Location) :
    (Suppressions.none.addDirectives source).isSuppressed code (some location) = true ↔
      ∃ comment ∈ pieces source, comment.kind = .comment ∧
        (comment.location.line = location.line ∨ comment.location.line + 1 = location.line) ∧
        ∃ directive : Directive, directive.IsFirst comment.raw ∧
          (code ∈ directive.codes ∨ anyCode ∈ directive.codes) := by
  rw [isSuppressed_addDirectives, silences_iff, mem_codesOn_iff_comment hsilent hlines,
    mem_codesOn_iff_comment hsilent hlines]
  simp only [mem_codesIn_iff]
  grind

def annotated : String :=
  "(print \"; none\") ;; Clarity-Audit-Suppress unused *\r\n(f)\n(g)"

theorem isSuppressed_iff_comment_annotated : Text.FeedsLines annotated.toList ∧
      (∀ token ∈ tokenize annotated, token.Silent annotated.toList) ∧
      (∃ comment ∈ pieces annotated, comment.kind = .comment ∧
        (comment.location.line = 2 ∨ comment.location.line + 1 = 2) ∧
        ∃ directive : Directive, directive.IsFirst comment.raw ∧
          ("unused" ∈ directive.codes ∨ anyCode ∈ directive.codes)) ∧
      ¬∃ comment ∈ pieces annotated, comment.kind = .comment ∧
        (comment.location.line = 3 ∨ comment.location.line + 1 = 3) ∧
        ∃ directive : Directive, directive.IsFirst comment.raw ∧
          ("unused" ∈ directive.codes ∨ anyCode ∈ directive.codes) := by
  have hlines : Text.FeedsLines annotated.toList := by decide
  have hsilent : ∀ token ∈ tokenize annotated, token.Silent annotated.toList := by decide +kernel
  refine ⟨hlines, hsilent, ?_, ?_⟩
  · exact (isSuppressed_iff_comment hlines hsilent "unused" ⟨2, 1, 0⟩).mp (by decide +kernel)
  · intro hcomment
    have hsilenced := (isSuppressed_iff_comment hlines hsilent "unused" ⟨3, 1, 0⟩).mpr hcomment
    revert hsilenced
    decide +kernel

def quoted : String :=
  "(print \"; clarity-audit-suppress *\")"

def paged : String :=
  "\x0c\x0c; clarity-audit-suppress *"

/-- A string silences codes, and a comment behind form feeds does not silence those on its line. -/
theorem isSuppressed_quoted_paged : ((∀ piece ∈ pieces quoted, piece.kind ≠ .comment) ∧
      (Suppressions.none.addDirectives quoted).isSuppressed "unused" (some .start) = true) ∧
    (∃ comment ∈ pieces paged, comment.kind = .comment ∧ comment.location.line = 1 ∧
      anyCode ∈ codesIn comment.raw) ∧
    (Suppressions.none.addDirectives paged).isSuppressed "unused" (some .start) = false := by
  decide +kernel

end ContractAudit
