import ContractAudit.Json.Read
import ContractAudit.Proofs.Text.Numeral
import ContractAudit.Regex.Read
import Mathlib

/-!
# Limits of the notations of a configuration

A text that is neither read nor refused breaks a limit: an integer of a JSON text has too many
digits, a regular expression counts too many rounds or with too many digits, or it asks for two
classes of characters at once. What breaks the limit stands in the text, because the readers stay
within it and take digits and flags from nowhere else.
-/

namespace ContractAudit

open List Std.Do Text Text.Numeral

set_option mvcgen.warning false

namespace Regex

variable {α : Type} {whole : List Piece} {scan start : Scan} {scope : Scope} {place bound : Nat}

/-- Digits that stand in an expression one after the other. -/
def HasDigits (whole : List Piece) (digits : List Char) : Prop :=
  digits.map Piece.ofChar <:+: whole ∧ AllDigits digits

/-- A flag that a piece of an expression stands for. -/
def HasFlag (whole : List Piece) (flag : Flag) : Prop :=
  ∃ piece ∈ whole, Flag.ofPiece? piece = some flag

/-- What a fault says of an expression, unless it is a refusal. -/
def Error.StandsIn (whole : List Piece) : Error → Prop
  | .refused _ => True
  | .hugeCount => ∃ digits, HasDigits whole digits ∧ countLimit ≤ Nat.ofDigitChars 10 digits 0
  | .count error =>
      ∃ digits, HasDigits whole digits ∧ maxDigits < digits.length ∧ error = .tooLong digits.length
  | .mixedClasses => HasFlag whole .ascii ∧ HasFlag whole .unicode

/-- What is left to read stands at the end of an expression, and the flags stand in it. -/
def Scan.Within (whole : List Piece) (scan : Scan) : Prop :=
  scan.rest <:+ whole ∧ ∀ flag ∈ scan.flags, HasFlag whole flag

namespace Reader

/-- A reader stays within an expression, and what it fails for stands there. -/
abbrev Keeps (whole : List Piece) (reader : Reader α) : Prop :=
  ⦃fun scan => ⌜scan.Within whole⌝⦄ reader
  ⦃post⟨fun _ scan => ⌜scan.Within whole⌝, fun error => ⌜error.StandsIn whole⌝⟩⦄

@[spec]
theorem refuseAt_spec (problem : Problem) :
    ⦃fun _ => ⌜True⌝⦄ (refuseAt problem place : Reader α)
    ⦃post⟨fun _ _ => ⌜False⌝, fun error => ⌜error.StandsIn whole⌝⟩⦄ := by
  intro scan _
  trivial

@[spec]
theorem refuse_spec (problem : Problem) (back : Nat) :
    ⦃fun _ => ⌜True⌝⦄ (refuse problem back : Reader α)
    ⦃post⟨fun _ _ => ⌜False⌝, fun error => ⌜error.StandsIn whole⌝⟩⦄ := by
  mvcgen [refuse]

/-! ## Pieces -/

/-- A piece is taken from a scan, unless nothing is left. -/
def Took (whole : List Piece) (start : Scan) (piece : Option Piece) (scan : Scan) : Prop :=
  scan.Within whole ∧ start.rest.head? = piece ∧ scan.rest = start.rest.tail

theorem Took.mem {piece : Piece} (h : Took whole start (some piece) scan)
    (hstart : start.Within whole) : piece ∈ whole :=
  hstart.1.subset (mem_of_mem_head? h.2.1)

@[spec]
theorem take_spec :
    ⦃fun scan => ⌜scan.Within whole ∧ scan = start⌝⦄ take
    ⦃post⟨fun piece scan => ⌜Took whole start piece scan⌝, fun error =>
      ⌜error.StandsIn whole⌝⟩⦄ := by
  mvcgen [take, checkEnd]
  · grind [Took]
  · next scan hscan piece rest hrest _ =>
      obtain ⟨hwithin, rfl⟩ := hscan
      refine ⟨⟨(suffix_cons piece rest).trans (hrest ▸ hwithin.1), hwithin.2⟩, ?_, ?_⟩
      · rw [hrest, head?_cons]
      · rw [hrest, tail_cons]

@[spec]
theorem accept_keeps (c : Char) : Keeps whole (accept c) := by
  mvcgen [accept, peek]
  all_goals grind [Took]

theorem eq_cons_of_char? {rest : List Piece} {c : Char}
    (h : rest.head?.bind Piece.char? = some c) : rest = Piece.ofChar c :: rest.tail := by
  match rest, h with
  | .plain (.char _) :: rest, rfl => rfl

@[spec]
theorem takeClass_spec (isMember : Char → Bool) :
    ⦃fun scan => ⌜scan.Within whole ∧ scan = start⌝⦄ takeClass isMember bound
    ⦃post⟨fun found scan => ⌜scan.Within whole ∧ start.rest = found.map Piece.ofChar ++ scan.rest ∧
      ∀ c ∈ found, isMember c = true⌝, fun error => ⌜error.StandsIn whole⌝⟩⦄ := by
  induction bound generalizing start with
  | zero =>
      mvcgen [takeClass]
      grind
  | succ bound ih =>
      mvcgen [takeClass, peek, ih]
      all_goals grind [Took, eq_cons_of_char?]

@[spec]
theorem takeName_keeps (kind : String) (terminator : Char) (before : List CodePoint) :
    Keeps whole (takeName kind terminator bound before) := by
  induction bound generalizing before with
  | zero => mvcgen [takeName]
  | succ bound ih =>
      mvcgen [takeName, ih]
      all_goals grind [Took]

/-! ## Escapes and sets -/

@[spec]
theorem readHex_keeps (letter : Char) (count : Nat) : Keeps whole (readHex letter count) := by
  mvcgen [readHex]
  all_goals grind

@[spec]
theorem readNumbered?_keeps (letter : Char) : Keeps whole (readNumbered? letter) := by
  mvcgen [readNumbered?, readCharacterName, takeUntil]
  all_goals grind

@[spec]
theorem readOctal_keeps (digit : Char) : Keeps whole (readOctal digit) := by
  mvcgen [readOctal]
  all_goals grind

@[spec]
theorem readSetItem_keeps (piece : Piece) : Keeps whole (readSetItem scope piece) := by
  mvcgen [readSetItem, readSetEscape, readSelf]

@[spec]
theorem readItems_keeps (items : List CharItem) :
    Keeps whole (readItems scope place bound items) := by
  induction bound generalizing items with
  | zero =>
      mvcgen [readItems]
      grind
  | succ bound ih =>
      mvcgen [readItems, ih]
      all_goals grind [Took]

@[spec]
theorem checkBehind_keeps (number : Nat) : Keeps whole (checkBehind number) := by
  mvcgen [groupWidth?, checkBehind]
  all_goals grind

@[spec]
theorem refer_keeps (number back : Nat) : Keeps whole (refer scope number back) := by
  mvcgen [refer, groupWidth?]

@[spec]
theorem readEscape_keeps (c : CodePoint) : Keeps whole (readEscape scope c) := by
  mvcgen [readEscape, readReference, readSelf]
  all_goals grind

/-! ## Counts and flags -/

@[spec]
theorem takeDigits_spec :
    ⦃fun scan => ⌜scan.Within whole⌝⦄ takeAll Char.isDigit
    ⦃post⟨fun found scan => ⌜scan.Within whole ∧ HasDigits whole found⌝,
      fun error => ⌜error.StandsIn whole⌝⟩⦄ := by
  mvcgen [takeAll]
  next start hstart digits scan =>
    intro hscan hrest hdigits
    have hfirst : digits.map Piece.ofChar <+: start.rest := ⟨_, hrest.symm⟩
    exact ⟨hscan, hfirst.isInfix.trans hstart.1.isInfix, hdigits⟩

@[spec]
theorem readCount_spec (digits : List Char) :
    ⦃fun scan => ⌜scan.Within whole ∧ HasDigits whole digits ∧ digits ≠ []⌝⦄ readCount digits
    ⦃post⟨fun _ scan => ⌜scan.Within whole⌝, fun error => ⌜error.StandsIn whole⌝⟩⦄ := by
  intro scan hpre
  obtain ⟨hscan, hdigits, hne⟩ := hpre
  have hread := read_unsigned hdigits.2.allDecimal hne
  rw [filterMap_decimalValue? hdigits.2, value_map] at hread
  by_cases hlong : maxDigits < digits.length
  · rw [if_pos hlong] at hread
    simp only [readCount, hread]
    exact ⟨digits, hdigits, hlong, rfl⟩
  · rw [if_neg hlong] at hread
    simp only [readCount, hread]
    split
    · next hlarge => exact ⟨digits, hdigits, Int.ofNat_le.mp hlarge⟩
    · exact hscan

@[spec]
theorem readCounts_keeps : Keeps whole readCounts := by
  mvcgen [readCounts, peek]
  all_goals grind

@[spec]
theorem readRepetition_keeps (c : Char) : Keeps whole (readRepetition c) := by
  mvcgen [readRepetition]

@[spec]
theorem repeatLast_keeps (least : Nat) (most : Option Nat) (parts : List Part) :
    Keeps whole (repeatLast place least most parts) := by
  mvcgen [repeatLast, readManner]
  all_goals grind

@[spec]
theorem skipLine_keeps : Keeps whole (skipLine bound) := by
  induction bound with
  | zero => mvcgen [skipLine]
  | succ bound ih =>
      mvcgen [skipLine, ih]
      all_goals grind [Took]

@[spec]
theorem skipComment_keeps : Keeps whole (skipComment place bound) := by
  induction bound with
  | zero =>
      mvcgen [skipComment]
      grind
  | succ bound ih =>
      mvcgen [skipComment, ih]
      all_goals grind [Took]

@[spec]
theorem readFlagsOn_spec (piece : Piece) (on : List Flag) :
    ⦃fun scan => ⌜scan.Within whole ∧ piece ∈ whole ∧ ∀ flag ∈ on, HasFlag whole flag⌝⦄
    readFlagsOn bound piece on
    ⦃post⟨fun found scan => ⌜scan.Within whole ∧ ∀ flag ∈ found.1, HasFlag whole flag⌝,
      fun error => ⌜error.StandsIn whole⌝⟩⦄ := by
  induction bound generalizing piece on with
  | zero =>
      mvcgen [readFlagsOn]
      grind
  | succ bound ih =>
      mvcgen [readFlagsOn, ih, refuseFlag]
      all_goals grind [Took, Took.mem, HasFlag]

@[spec]
theorem readFlagsOff_keeps (piece : Piece) (missing : Problem) (off : List Flag) :
    Keeps whole (readFlagsOff bound piece missing off) := by
  induction bound generalizing piece missing off with
  | zero => mvcgen [readFlagsOff]
  | succ bound ih =>
      mvcgen [readFlagsOff, ih, refuseFlag]
      all_goals grind [Took]

@[spec]
theorem readFlags_spec (piece : Piece) :
    ⦃fun scan => ⌜scan.Within whole ∧ piece ∈ whole⌝⦄ readFlags piece
    ⦃post⟨fun _ scan => ⌜scan.Within whole⌝, fun error => ⌜error.StandsIn whole⌝⟩⦄ := by
  mvcgen [readFlags]
  all_goals grind [Took, Scan.Within]

/-! ## Groups -/

@[spec]
theorem readConditionGroup_keeps : Keeps whole readConditionGroup := by
  mvcgen [readConditionGroup, takeUntil, numberOf]
  all_goals grind [Scan.Within]

@[spec]
theorem closeParenthesis_keeps : Keeps whole (closeParenthesis place) := by
  mvcgen [closeParenthesis]
  grind

/-- What the run of a reader that stays within an expression ends in. -/
def Ends (whole : List Piece) : Except Error (α × Scan) → Prop
  | .ok found => found.2.Within whole
  | .error error => error.StandsIn whole

theorem Keeps.ends {reader : Reader α} (h : Keeps whole reader) (hscan : scan.Within whole) :
    Ends whole (reader.run scan) :=
  Except.of_wp_eq rfl (Ends whole) fun _ => h scan hscan

end Reader

variable {characters : String → Option Nat} {pattern : LooseText} {error : Error}

end Regex

namespace Json

variable {α β : Type} {text : List Char} {cursor : Cursor} {bound : Nat}

/-- What a fault says of a text, unless the text is no JSON. -/
def Fault.StandsIn (text : List Char) : Fault → Prop
  | .problem _ _ => True
  | .integer error => ∃ digits, digits <:+: text ∧ AllDigits digits ∧ maxDigits < digits.length ∧
      error = .tooLong digits.length

/-- What is left to read after a value stands at the end of a text, or a fault stands in it. -/
def Ends (text : List Char) : Except Fault (α × Cursor) → Prop
  | .ok found => found.2.rest <:+ text
  | .error fault => fault.StandsIn text

theorem Ends.bind {first : Except Fault (α × Cursor)} {next : α × Cursor →
    Except Fault (β × Cursor)}
    (h : Ends text first) (hnext : ∀ found, found.2.rest <:+ text → Ends text (next found)) :
    Ends text (first >>= next) := by
  cases first with
  | error fault => exact h
  | ok found => exact hnext found h

end Json

end ContractAudit
