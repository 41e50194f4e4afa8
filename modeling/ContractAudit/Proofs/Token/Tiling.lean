import ContractAudit.Proofs.Token.Append
import Mathlib.Data.List.Induction
import Mathlib.Data.List.Pairwise

/-!
# Tokens and gaps tile a text

The pieces that a text is cut into stand one behind the other and make it up. So each token is the
text at its place, the places go up without a token reaching into the next, and what lies between
tokens is blank, comment, or characters that start no token in any text.
-/

namespace ContractAudit

open List Location Piece Scan Text

variable {c : Char} {index : Nat} {source : String} {token : Token} (front : List Char)

/-! ## Places -/

def firstLine (text : List Char) : List Char :=
  text.takeWhile (· ≠ '\n')

def lastLine (text : List Char) : List Char :=
  (text.reverse.takeWhile (· ≠ '\n')).reverse

/-- The location of an index of a text: its line counts the line feeds before the index, and its
column the characters behind the last of them. -/
def Location.ofIndex (text : List Char) (index : Nat) : Location :=
  ⟨1 + (text.take index).count '\n', 1 + (lastLine (text.take index)).length, index⟩

theorem Location.column_after_eq (text : List Char) :
    (start.after text).column = 1 + (lastLine text).length := by
  induction text using List.reverseRec with
  | nil => rfl
  | append_singleton text c ih =>
      rw [lastLine, length_reverse] at ih ⊢
      rw [after_append, after_cons, after_nil, reverse_append,
        reverse_singleton, singleton_append, next]
      by_cases hline : c = '\n'
      · rw [if_pos hline, takeWhile_cons_of_neg (by simpa using hline)]
        rfl
      · rw [if_neg hline, takeWhile_cons_of_pos (by simpa using hline), length_cons]
        show (start.after text).column + 1 = _
        omega

theorem Location.after_eq_ofIndex (rest : List Char) :
    start.after front = ofIndex (front ++ rest) front.length := by
  have hline := line_after .start front
  have hcolumn := column_after_eq front
  have hoffset := offset_after .start front
  rw [ofIndex, take_left, ← hcolumn]
  cases h : start.after front with
  | mk line column offset =>
      rw [h] at hline hoffset
      rw [mk.injEq]
      exact ⟨hline, rfl, hoffset.trans (Int.zero_add _)⟩

theorem Location.offset_after_start : (start.after front).offset = front.length := by
  rw [offset_after]
  exact Int.zero_add _

/-- Whether an index of a text lies in a stretch of it that starts at a location. -/
def Location.Covers (location : Location) (length index : Nat) : Prop :=
  location.offset ≤ index ∧ (index : Int) < location.offset + length

def Location.Holds (location : Location) (text raw : List Char) : Prop :=
  ∃ index, index + raw.length ≤ text.length ∧ location = .ofIndex text index ∧
    raw = (text.drop index).take raw.length

theorem Location.holds_after (raw back : List Char) :
    (start.after front).Holds (front ++ (raw ++ back)) raw := by
  refine ⟨front.length, by simp, after_eq_ofIndex front _, ?_⟩
  rw [drop_left, take_left]

/-! ## Pieces of a text -/

/-- A character that starts nothing: it is no blank and opens no comment, it is no mark, and no
literal and no name starts with it. -/
def StartsNoToken (c : Char) : Prop :=
  isBlank c = false ∧ c ≠ ';' ∧ Scan.punctuation? c = none ∧ c ≠ '"' ∧ isDigit c = false ∧
    c ≠ '\'' ∧ Scan.isNameStart c = false

namespace Scan

variable {location : Location} {pieces : List Piece} {text : List Char}

/-- What a scan can find: a blank, a comment to the end of the line, a token, or a character that
starts nothing. -/
theorem scan_cases (c : Char) (rest : List Char) : (isBlank c = true ∧ scan c rest = (.blank, 0)) ∨
      (c = ';' ∧ scan c rest = (.comment, (rest.takeWhile (· ≠ '\n')).length)) ∨
      (∃ kind value, (scan c rest).1 = .token kind value) ∨
      (StartsNoToken c ∧ scan c rest = (.unknown, 0)) := by
  by_cases hblank : isBlank c = true
  · exact .inl ⟨hblank, by rw [scan, if_pos hblank]⟩
  by_cases hcomment : c = ';'
  · exact .inr (.inl ⟨hcomment, by rw [scan, if_neg hblank, if_pos hcomment]⟩)
  refine .inr (.inr ?_)
  -- A character that opens no name, number or principal opens nothing, whatever follows it.
  by_cases hunknown : punctuation? c = none ∧ c ≠ '"' ∧ isDigit c = false ∧ c ≠ '\'' ∧
      isNameStart c = false
  · obtain ⟨hpunctuation, hquote, hdigit, hprincipal, hname⟩ := hunknown
    have hne {d : Char} (hd : isDigit d = true ∨ isNameStart d = true) : c ≠ d := by
      rintro rfl
      rcases hd with hd | hd <;> simp_all
    refine .inr ⟨⟨by simpa using hblank, hcomment, hpunctuation, hquote, hdigit, hprincipal, hname⟩,
      ?_⟩
    rw [scan, if_neg hblank, if_neg hcomment, hpunctuation]
    simp [hquote, hdigit, hprincipal, hname, hne (d := 'u') (.inr (by decide)),
      hne (d := '0') (.inl (by decide)), hne (d := '-') (.inr (by decide))]
  · refine .inl ?_
    rw [scan, if_neg hblank, if_neg hcomment]
    split
    · exact ⟨_, _, rfl⟩
    next hpunctuation =>
    iterate 8
      split
      · exact ⟨_, _, rfl⟩
    have hnone := Option.eq_none_iff_forall_ne_some.mpr hpunctuation
    simp_all

/-- A text cut into pieces from a location on, one piece behind the other. -/
inductive Cut : Location → List Char → List Piece → Prop where
  | nil (location : Location) : Cut location [] []
  | cons {location : Location} {kind : PieceKind} {c : Char} {raw rest : List Char}
      {pieces : List Piece} :
      scan c (raw ++ rest) = (kind, raw.length) →
      Cut (location.after (c :: raw)) rest pieces →
      Cut location (c :: raw ++ rest) (⟨kind, c :: raw, location⟩ :: pieces)

theorem piecesFrom_cut (location : Location) (text : List Char) :
    Cut location text (piecesFrom location 0 text) := by
  cases text with
  | nil => exact .nil location
  | cons c rest =>
      let length := (scan c rest).2
      have hlength : (rest.take length).length = length :=
        length_take_of_le (scan_length_le c rest)
      have hpieces := piecesFrom_length (location.next c) (rest.take length) (rest.drop length)
      have hscan : scan c (rest.take length ++ rest.drop length) =
          ((scan c rest).1, (rest.take length).length) := by
        rw [take_append_drop, hlength]
      have hrest := piecesFrom_cut (location.after (c :: rest.take length)) (rest.drop length)
      have hcut := Cut.cons hscan hrest
      rw [cons_append, take_append_drop] at hcut
      rw [hlength, take_append_drop] at hpieces
      rwa [piecesFrom_cons, hpieces]
termination_by text.length
decreasing_by
  simp only [List.length_drop, List.length_cons]
  omega

/-- A piece as it is cut out of a text: what stands before it gives its location, and it is scanned
before what stands behind it. -/
def CutOut (text : List Char) (piece : Piece) : Prop :=
  ∃ front c raw back, text = front ++ (c :: raw ++ back) ∧
    piece.raw = c :: raw ∧ piece.location = start.after front ∧
    scan c (raw ++ back) = (piece.kind, raw.length)

variable (h : Cut location text pieces)

include h

theorem Cut.cutOut (before : List Char) (hbefore : location = .after .start before) {piece : Piece}
    (hpiece : piece ∈ pieces) : CutOut (before ++ text) piece := by
  induction h generalizing before with
  | nil location => cases hpiece
  | @cons location kind c raw rest pieces hscan _ ih =>
      rcases mem_cons.mp hpiece with rfl | hpiece
      · exact ⟨before, c, raw, rest, rfl, rfl, hbefore, hscan⟩
      · have hlater := ih (before ++ c :: raw) (by rw [hbefore, after_append]) hpiece
        rwa [append_assoc] at hlater

theorem Cut.ordered : pieces.Pairwise (fun first second =>
        first.location.offset + (first.raw.length : Int) ≤ second.location.offset) ∧
      ∀ piece ∈ pieces, location.offset ≤ piece.location.offset := by
  induction h with
  | nil location => simp
  | @cons location kind c raw rest pieces _ _ ih =>
      rw [offset_after] at ih
      refine ⟨pairwise_cons.mpr ⟨ih.2, ih.1⟩, fun piece hpiece => ?_⟩
      rcases mem_cons.mp hpiece with rfl | hpiece
      · exact Int.le_refl _
      · have hlater := ih.2 piece hpiece
        omega

theorem Cut.covers (index : Nat) (hfrom : location.offset ≤ index)
    (hto : (index : Int) < location.offset + text.length) :
    ∃ piece ∈ pieces, piece.location.Covers piece.raw.length index := by
  induction h with
  | nil location =>
      rw [length_nil] at hto
      omega
  | @cons location kind c raw rest pieces _ _ ih =>
      by_cases hfirst : (index : Int) < location.offset + (c :: raw).length
      · exact ⟨_, mem_cons_self, hfrom, hfirst⟩
      · rw [offset_after] at ih
        rw [length_append] at hto
        obtain ⟨piece, hpiece, hcovers⟩ := ih (by omega) (by omega)
        exact ⟨piece, mem_cons_of_mem _ hpiece, hcovers⟩

theorem Cut.unique (index : Nat) {first second : Piece} (hfirst : first ∈ pieces)
    (hsecond : second ∈ pieces) (hcovers : first.location.Covers first.raw.length index)
    (hcovers' : second.location.Covers second.raw.length index) : first = second := by
  let Apart (first second : Piece) : Prop :=
    first.location.offset + (first.raw.length : Int) ≤ second.location.offset ∨
      second.location.offset + (second.raw.length : Int) ≤ first.location.offset
  have : Std.Symm Apart := ⟨fun _ _ => Or.symm⟩
  by_contra hne
  have hapart : Apart first second :=
    (h.ordered.1.imp fun hle => .inl hle : pieces.Pairwise Apart).forall hfirst hsecond hne
  obtain ⟨hfrom, hto⟩ := hcovers
  obtain ⟨hfrom', hto'⟩ := hcovers'
  rcases hapart with hapart | hapart <;> omega

end Scan

theorem pieces_cut (source : String) : Scan.Cut .start source.toList (pieces source) :=
  piecesFrom_cut _ _

theorem pieces_cutOut {piece : Piece} (h : piece ∈ pieces source) :
    Scan.CutOut source.toList piece :=
  (pieces_cut source).cutOut [] rfl h

theorem exists_piece (h : index < source.toList.length) :
    ∃ piece ∈ pieces source, piece.location.Covers piece.raw.length index := by
  refine (pieces_cut source).covers index (Int.natCast_nonneg index) ?_
  show (index : Int) < 0 + source.toList.length
  omega

namespace Scan.CutOut

variable {text : List Char} {piece : Piece}

theorem holds (h : CutOut text piece) : piece.location.Holds text piece.raw := by
  obtain ⟨front, c, raw, back, rfl, hraw, hlocation, _⟩ := h
  rw [hraw, hlocation]
  exact holds_after front (c :: raw) back

theorem comment (h : CutOut text piece) (hkind : piece.kind = .comment) :
    ∃ front rest, text = front ++ ';' :: rest ∧ piece.location = start.after front ∧
      piece.raw = firstLine (';' :: rest) := by
  obtain ⟨front, c, raw, back, htext, hraw, hlocation, hscan⟩ := h
  rw [hkind] at hscan
  rcases scan_cases c (raw ++ back) with ⟨_, heq⟩ | ⟨rfl, heq⟩ | ⟨kind, value, heq⟩ | ⟨_, heq⟩
  · rw [hscan, Prod.mk.injEq] at heq
    cases heq.1
  · rw [hscan, Prod.mk.injEq] at heq
    refine ⟨front, raw ++ back, htext, hlocation, ?_⟩
    have hprefix := take_length_takeWhile (· ≠ '\n') (raw ++ back)
    rw [← heq.2, take_left] at hprefix
    rw [hraw, firstLine, takeWhile_cons_of_pos (by decide), ← hprefix]
  · rw [hscan] at heq
    cases heq
  · rw [heq] at hscan
    cases hscan

theorem cases (h : CutOut text piece)
    (hcovers : piece.location.Covers piece.raw.length index) (hc : text[index]? = some c) :
    isBlank c = true ∨ piece.kind = .comment ∨ (∃ token, piece.token? = some token) ∨
      StartsNoToken c := by
  obtain ⟨front, d, raw, back, rfl, hraw, hlocation, hscan⟩ := h
  -- A piece of one character stands at the index itself.
  have hsingle (hlength : 0 = raw.length) : d = c := by
    obtain ⟨hfrom, hto⟩ := hcovers
    rw [hlocation, offset_after_start] at hfrom hto
    rw [hraw, length_cons, ← hlength] at hto
    obtain rfl : index = front.length := by omega
    simpa using hc
  rcases scan_cases d (raw ++ back) with ⟨hblank, heq⟩ | ⟨_, heq⟩ | ⟨kind, value, heq⟩ |
    ⟨hstarts, heq⟩
  · rw [heq, Prod.mk.injEq] at hscan
    exact .inl (hsingle hscan.2 ▸ hblank)
  · rw [heq, Prod.mk.injEq] at hscan
    exact .inr (.inl hscan.1.symm)
  · rw [hscan] at heq
    replace heq : piece.kind = .token kind value := heq
    exact .inr (.inr (.inl ⟨_, by rw [token?, heq]⟩))
  · rw [heq, Prod.mk.injEq] at hscan
    exact .inr (.inr (.inr (hsingle hscan.2 ▸ hstarts)))

end Scan.CutOut

/-! ## Tokens of a text -/

theorem mem_tokenize_iff : token ∈ tokenize source ↔
      (∃ piece ∈ pieces source, piece.token? = some token) ∨
        token = ⟨.endOfInput, "", "", start.after source.toList⟩ := by
  rw [tokenize, mem_append, mem_filterMap, mem_singleton]

theorem Piece.raw_of_token? {piece : Piece} (h : piece.token? = some token) :
    token.raw.toList = piece.raw := by
  obtain ⟨kind, raw, location⟩ := piece
  cases kind <;> cases h
  exact String.toList_ofList

theorem Piece.length_of_token? {piece : Piece} (h : piece.token? = some token) :
    token.raw.length = piece.raw.length := by
  rw [← raw_of_token? h, String.length_toList]

/-- A name of a text is read as a name by itself. -/
theorem isPlainName_of_isName (h : token ∈ (tokenize source).dropLast)
    (hname : token.kind.isName = true) : isPlainName token.value = true := by
  rw [dropLast_tokenize] at h
  obtain ⟨⟨kind, text, location⟩, hpiece, htoken⟩ := mem_filterMap.mp h
  obtain ⟨front, c, raw, back, _, _, _, hscan⟩ := pieces_cutOut hpiece
  cases kind <;> cases htoken
  have halone : scan c (raw ++ []) = _ :=
    scan_transfer hscan nofun (fun _ => nofun) fun _ _ => rfl
  rw [append_nil] at halone
  obtain ⟨_, _, hvalue, hlength⟩ := word_of_scan halone (.inl hname)
  rw [(takeWhile_sublist isNameChar).eq_of_length hlength.symm] at hvalue
  subst hvalue
  simp only [isPlainName, String.toList_ofList, isWord, halone, decide_true, Bool.and_true]
  exact hname

theorem tokenize_holds (h : token ∈ tokenize source) :
    token.location.Holds source.toList token.raw.toList := by
  rcases mem_tokenize_iff.mp h with ⟨piece, hpiece, htoken⟩ | rfl
  · rw [location_of_token? htoken, raw_of_token? htoken]
    exact (pieces_cutOut hpiece).holds
  · simpa using holds_after source.toList [] []

theorem tokenize_ordered (source : String) : (tokenize source).Pairwise fun first second =>
      first.location.offset + (first.raw.length : Int) ≤ second.location.offset := by
  have hordered := (pieces_cut source).ordered.1
  refine pairwise_append.mpr ⟨?_, pairwise_singleton _ _, ?_⟩
  · refine hordered.filterMap _ fun first second hle token htoken token' htoken' => ?_
    rwa [location_of_token? htoken, length_of_token? htoken,
      location_of_token? htoken']
  · intro token htoken last hlast
    obtain ⟨index, hend, hlocation, _⟩ :=
      tokenize_holds (mem_tokenize_iff.mpr (.inl (mem_filterMap.mp htoken)))
    rw [mem_singleton.mp hlast, hlocation, offset_after_start, ofIndex]
    rw [String.length_toList] at hend
    show (index : Int) + token.raw.length ≤ source.toList.length
    omega

/-! ## Gaps -/

def Token.Clear (tokens : List Token) (index : Nat) : Prop :=
  ∀ token ∈ tokens, ¬token.location.Covers token.raw.length index

/-- An index lies in a comment between tokens: from a semicolon up to and without the next line
feed. -/
def InComment (text : List Char) (tokens : List Token) (index : Nat) : Prop :=
  ∃ start, text[start]? = some ';' ∧ start ≤ index ∧
    index < start + (firstLine (text.drop start)).length ∧
    ∀ other, start ≤ other → other < start + (firstLine (text.drop start)).length →
      Token.Clear tokens other

theorem clear_of_covers {piece : Piece} (hpiece : piece ∈ pieces source)
    (hgap : piece.token? = none)
    (hcovers : piece.location.Covers piece.raw.length index) :
    Token.Clear (tokenize source) index := by
  intro token htoken hover
  rcases mem_tokenize_iff.mp htoken with ⟨other, hother, htoken⟩ | rfl
  · rw [location_of_token? htoken, length_of_token? htoken] at hover
    rw [(pieces_cut source).unique index hpiece hother hcovers hover, htoken] at hgap
    cases hgap
  · have hstart := hover.1
    have hend := hover.2
    rw [show "".length = 0 from rfl] at hend
    omega

theorem inComment_of_covers {piece : Piece} (hpiece : piece ∈ pieces source)
    (hkind : piece.kind = .comment)
    (hcovers : piece.location.Covers piece.raw.length index) :
    InComment source.toList (tokenize source) index := by
  obtain ⟨front, rest, htext, hlocation, hraw⟩ := (pieces_cutOut hpiece).comment hkind
  have hoffset : piece.location.offset = front.length := by
    rw [hlocation, offset_after_start]
  have hline : firstLine (source.toList.drop front.length) = piece.raw := by
    rw [htext, drop_left, hraw]
  obtain ⟨hfrom, hto⟩ := hcovers
  refine ⟨front.length, by simp [htext], by omega, by rw [hline]; omega, ?_⟩
  intro other hstart hend
  rw [hline] at hend
  refine clear_of_covers hpiece ?_ ⟨by omega, by omega⟩
  rw [token?, hkind]

theorem gap_cases
    (hc : source.toList[index]? = some c) (hclear : Token.Clear (tokenize source) index) :
    isBlank c = true ∨ InComment source.toList (tokenize source) index ∨ StartsNoToken c := by
  obtain ⟨hindex, _⟩ := List.getElem?_eq_some_iff.mp hc
  obtain ⟨piece, hpiece, hcovers⟩ := exists_piece hindex
  rcases (pieces_cutOut hpiece).cases hcovers hc with hblank | hkind | ⟨token, htoken⟩ | hunknown
  · exact .inl hblank
  · exact .inr (.inl (inComment_of_covers hpiece hkind hcovers))
  · refine absurd ?_ (hclear token (mem_tokenize_iff.mpr (.inl ⟨piece, hpiece, htoken⟩)))
    rwa [location_of_token? htoken, length_of_token? htoken]
  · exact .inr (.inr hunknown)

/-- The tokens of a text are the text at their locations, none empty but the end of input behind the
whole text, each behind the one before; and what lies between them is blank, in a comment, or starts
no token. -/
theorem tokenize_tiles (source : String) : (∃ tokens last, tokenize source = tokens ++ [last] ∧
      last.kind = .endOfInput ∧ last.raw = "" ∧ last.location.offset = (source.length : Int) ∧
      ∀ token ∈ tokens, token.kind ≠ .endOfInput ∧ token.raw ≠ "") ∧
    (∀ token ∈ tokenize source, token.location.Holds source.toList token.raw.toList) ∧
    (tokenize source).Pairwise (fun first second =>
      first.location.offset + (first.raw.length : Int) ≤ second.location.offset) ∧
    ∀ index c, source.toList[index]? = some c → Token.Clear (tokenize source) index →
      Text.isBlank c = true ∨ InComment source.toList (tokenize source) index ∨
        StartsNoToken c := by
  refine ⟨⟨_, _, tokenize_eq source, rfl, rfl, ?_, fun token htoken => ?_⟩, fun _ => tokenize_holds,
    tokenize_ordered source, fun _ _ => gap_cases⟩
  · rw [Location.offset_after_start, String.length_toList]
  · refine ⟨(tokenize_lexical htoken).2.2, fun hempty => ?_⟩
    rw [dropLast_tokenize] at htoken
    obtain ⟨piece, hpiece, htoken⟩ := List.mem_filterMap.mp htoken
    obtain ⟨_, c, raw, _, _, hraw, _⟩ := pieces_cutOut hpiece
    have hsame := Piece.raw_of_token? htoken
    rw [hempty, hraw] at hsame
    cases hsame

end ContractAudit
