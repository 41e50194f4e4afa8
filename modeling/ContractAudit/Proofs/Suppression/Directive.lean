import ContractAudit.Suppression
import ContractAudit.Proofs.Token.Names
import Mathlib.Data.List.Forall2

/-!
# What a directive is

A directive is written as semicolons, the word that opens it and a list of codes. The reader of
directives takes a text for one exactly if the text starts with one so written, and of the
directives in a text it heeds the first.
-/

namespace ContractAudit.Suppressions

open List Text

variable {c : Char} {p : Char → Bool} {rest text : List Char}

def isListed (c : Char) : Bool :=
  isCodeChar c || isGap c

/-- A directive as it is written: semicolons, the opening word in whatever case, and codes divided
by spaces and tabs. Blanks may stand before the word and stand behind it. -/
structure Directive where
  marks : List Char
  gap : List Char
  word : List Char
  space : List Char
  listed : List Char
  marks_ne : marks ≠ []
  marks_semicolon : ∀ c ∈ marks, c = ';'
  gap_blank : ∀ c ∈ gap, isBlank c = true
  word_reads : List.Forall₂ (fun expected c => reads expected c = true) directive.toList word
  space_ne : space ≠ []
  space_blank : ∀ c ∈ space, isBlank c = true
  listed_code : ∃ c ∈ listed.head?, isCodeChar c = true
  listed_all : ∀ c ∈ listed, isListed c = true

namespace Directive

def written (directive : Directive) : List Char :=
  directive.marks ++ (directive.gap ++ (directive.word ++ (directive.space ++ directive.listed)))

def codes (directive : Directive) : List String :=
  ((directive.listed.splitOnP isGap).filter fun code => !code.isEmpty).map String.ofList

/-- A text starts with a directive, whose list of codes goes no further. -/
def Opens (directive : Directive) (text : List Char) : Prop :=
  ∃ rest, text = directive.written ++ rest ∧ Scan.Stops isListed rest

def IsFirst (directive : Directive) (text : List Char) : Prop :=
  ∃ index, directive.Opens (text.drop index) ∧
    ∀ earlier < index, ∀ other : Directive, ¬other.Opens (text.drop earlier)

end Directive

/-! ## Reading a directive -/

theorem afterWord?_eq_some_iff {expected : List Char} :
    afterWord? expected text = some rest ↔ ∃ word, text = word ++ rest ∧
        List.Forall₂ (fun expected c => reads expected c = true) expected word := by
  fun_induction afterWord? expected text with
  | case1 text =>
      constructor
      · rintro ⟨⟩
        exact ⟨[], rfl, .nil⟩
      · rintro ⟨word, rfl, hword⟩
        cases hword
        rfl
  | case2 => simp
  | case3 first expected c text hreads ih =>
      rw [ih]
      constructor
      · rintro ⟨word, rfl, hword⟩
        exact ⟨c :: word, rfl, .cons hreads hword⟩
      · rintro ⟨word, htext, hword⟩
        cases hword with
        | cons _ hword =>
            cases htext
            exact ⟨_, rfl, hword⟩
  | case4 first expected c text hreads =>
      simp only [reduceCtorEq, false_iff, not_exists, not_and]
      rintro word htext hword
      cases hword with
      | cons hfirst _ =>
          cases htext
          exact hreads hfirst

theorem dropWhile_append_of_stops (htext : ∀ c ∈ text, p c = true) (hrest : Scan.Stops p rest) :
    (text ++ rest).dropWhile p = rest := by
  rw [dropWhile_append_of_pos htext]
  cases rest with
  | nil => rfl
  | cons c rest => exact dropWhile_cons_of_neg (by simp [hrest c rfl])

theorem of_isBlank (h : isBlank c = true) :
    isCodeChar c = false ∧ reads 'c' c = false ∧ c ≠ ';' := by
  have hall : ∀ range ∈ blankTable, ∀ code ∈ List.range' range.1 (range.2 + 1 - range.1),
      isCodeChar (Char.ofNat code) = false ∧ reads 'c' (Char.ofNat code) = false ∧
        Char.ofNat code ≠ ';' := by
    decide +kernel
  obtain ⟨range, hrange, hc⟩ := any_eq_true.mp h
  simp only [Bool.and_eq_true, decide_eq_true_eq] at hc
  have hcode := hall range hrange c.toNat (mem_range'_1.mpr (by omega))
  rwa [Char.ofNat_toNat] at hcode

theorem stops_dropWhile (p : Char → Bool) (text : List Char) : Scan.Stops p (text.dropWhile p) := by
  intro c hc
  have hdrop := head?_dropWhile_not p text
  rw [hc] at hdrop
  simpa using hdrop

theorem ne_nil_of_length_dropWhile_ne (h : (text.dropWhile p).length ≠ text.length) :
    text.takeWhile p ≠ [] := by
  intro hnil
  have hboth := takeWhile_append_dropWhile (p := p) (l := text)
  rw [hnil, nil_append] at hboth
  exact h (congrArg List.length hboth)

theorem codesAt?_eq_some {codes : List String} : codesAt? text = some codes ↔
      (text.dropWhile (· = ';')).length ≠ text.length ∧ ∃ rest, afterWord? directive.toList
            ((text.dropWhile (· = ';')).dropWhile isBlank) = some rest ∧
          (rest.dropWhile isBlank).length ≠ rest.length ∧
          (∃ c ∈ (rest.dropWhile isBlank).head?, isCodeChar c = true) ∧
          leadingCodes (rest.dropWhile isBlank) = codes := by
  unfold codesAt?
  by_cases hmarks : (text.dropWhile (· = ';')).length = text.length
  · simp [hmarks]
  rw [if_neg hmarks, and_iff_right hmarks]
  refine Option.bind_eq_some_iff.trans ?_
  refine exists_congr fun rest => and_congr_right fun _ => ?_
  by_cases hspace : (rest.dropWhile isBlank).length = rest.length
  · simp [hspace]
  rw [if_neg hspace, and_iff_right hspace]
  cases rest.dropWhile isBlank with
  | nil => simp
  | cons c listed => by_cases hcode : isCodeChar c = true <;> simp [hcode]

namespace Directive

theorem head_word (directive : Directive) : ∃ c rest, directive.word = c :: rest ∧
    isBlank c = false ∧ c ≠ ';' := by
  have hletters : Suppressions.directive.toList = 'c' :: "larity-audit-suppress".toList := by
    decide
  have hreads := directive.word_reads
  rw [hletters] at hreads
  obtain ⟨c, rest, hc, _, hword⟩ := List.forall₂_cons_left_iff.mp hreads
  refine ⟨c, rest, hword, ?_, ?_⟩
  · rw [Bool.eq_false_iff]
    intro hblank
    rw [(of_isBlank hblank).2.1] at hc
    cases hc
  · rintro rfl
    revert hc
    decide

theorem opens_of_codesAt? {codes : List String} (h : codesAt? text = some codes) :
    ∃ directive : Directive, directive.Opens text ∧ directive.codes = codes := by
  obtain ⟨hmarks, rest, hword, hspace, ⟨c, hc, hcode⟩, rfl⟩ := codesAt?_eq_some.mp h
  obtain ⟨word, hrest, hreads⟩ := afterWord?_eq_some_iff.mp hword
  let listed := rest.dropWhile isBlank
  have hlisted : (listed.takeWhile isListed).head? = some c := by
    cases hcase : listed with
    | nil =>
        rw [show rest.dropWhile isBlank = [] from hcase] at hc
        cases hc
    | cons d others =>
        obtain rfl : d = c := by
          rw [show rest.dropWhile isBlank = d :: others from hcase] at hc
          simpa using hc
        rw [takeWhile_cons_of_pos (by simp [isListed, hcode])]
        rfl
  refine ⟨{
    marks := text.takeWhile (· = ';')
    gap := (text.dropWhile (· = ';')).takeWhile isBlank
    word := word
    space := rest.takeWhile isBlank
    listed := listed.takeWhile isListed
    marks_ne := ne_nil_of_length_dropWhile_ne hmarks
    marks_semicolon := fun c hc => by simpa using mem_takeWhile_imp hc
    gap_blank := fun c hc => mem_takeWhile_imp hc
    word_reads := hreads
    space_ne := ne_nil_of_length_dropWhile_ne hspace
    space_blank := fun c hc => mem_takeWhile_imp hc
    listed_code := ⟨c, hlisted, hcode⟩
    listed_all := fun c hc => mem_takeWhile_imp hc }, ⟨listed.dropWhile isListed, ?_,
      stops_dropWhile isListed listed⟩, rfl⟩
  rw [Directive.written, append_assoc, append_assoc, append_assoc, append_assoc,
    takeWhile_append_dropWhile, takeWhile_append_dropWhile, ← hrest,
    takeWhile_append_dropWhile, takeWhile_append_dropWhile]

theorem Opens.codesAt? {directive : Directive} {text : List Char} (h : directive.Opens text) :
    codesAt? text = some directive.codes := by
  obtain ⟨rest, rfl, hrest⟩ := h
  obtain ⟨first, others, hword, hblank, hsemicolon⟩ := directive.head_word
  obtain ⟨code, hcode, hcodeChar⟩ := directive.listed_code
  have hlisted : Scan.Stops isBlank (directive.listed ++ rest) := by
    intro c hc
    rw [head?_append, hcode, Option.some_or] at hc
    obtain rfl := Option.some_inj.mp hc
    rw [Bool.eq_false_iff]
    intro hblank
    rw [(of_isBlank hblank).1] at hcodeChar
    cases hcodeChar
  have hopens : Scan.Stops isBlank
      (directive.word ++ (directive.space ++ (directive.listed ++ rest))) := by
    intro c hc
    rw [hword] at hc
    obtain rfl := Option.some_inj.mp hc
    exact hblank
  have hstarts : Scan.Stops (· = ';') (directive.gap ++
      (directive.word ++ (directive.space ++ (directive.listed ++ rest)))) := by
    intro c hc
    rw [head?_append, hword] at hc
    cases hgap : directive.gap with
    | nil =>
        rw [hgap] at hc
        obtain rfl := Option.some_inj.mp hc
        simpa using hsemicolon
    | cons d gap =>
        rw [hgap] at hc
        obtain rfl := Option.some_inj.mp hc
        have hd : d ∈ directive.gap := by simp [hgap]
        simpa using (of_isBlank (directive.gap_blank d hd)).2.2
  have hmarks := dropWhile_append_of_stops (p := (· = ';'))
    (fun c hc => by simpa using directive.marks_semicolon c hc) hstarts
  have hgap := dropWhile_append_of_stops directive.gap_blank hopens
  have hspace := dropWhile_append_of_stops directive.space_blank hlisted
  have hmarks_pos := length_pos_of_ne_nil directive.marks_ne
  have hspace_pos := length_pos_of_ne_nil directive.space_ne
  have htext : directive.written ++ rest = directive.marks ++ (directive.gap ++
      (directive.word ++ (directive.space ++ (directive.listed ++ rest)))) := by
    simp [written]
  rw [htext]
  refine codesAt?_eq_some.mpr ⟨?_, directive.space ++ (directive.listed ++ rest), ?_, ?_, ?_, ?_⟩
  · rw [hmarks]
    simp only [length_append]
    omega
  · rw [hmarks, hgap]
    exact afterWord?_eq_some_iff.mpr ⟨directive.word, rfl, directive.word_reads⟩
  · rw [hspace]
    simp only [length_append]
    omega
  · rw [hspace, head?_append, hcode]
    exact ⟨code, rfl, hcodeChar⟩
  · rw [hspace, leadingCodes]
    show (((directive.listed ++ rest).takeWhile isListed).splitOnP isGap |>.filter _).map _ = _
    rw [Scan.takeWhile_append_of_stops directive.listed_all hrest]
    rfl

theorem opens_concat_iff (directive : Directive) (text : List Char) :
    directive.Opens (text ++ ['\r']) ↔ directive.Opens text := by
  have hreturn : isListed '\r' = false := by decide
  constructor
  · rintro ⟨rest, htext, hrest⟩
    rcases eq_nil_or_concat rest with rfl | ⟨front, c, rfl⟩
    · -- The list of codes would end in the carriage return.
      obtain ⟨code, hcode, _⟩ := directive.listed_code
      have hlast := congrArg List.getLast? htext
      have hlisted : directive.listed ≠ [] := by
        rintro hnil
        rw [hnil] at hcode
        cases hcode
      simp only [written, append_nil, getLast?_append, getLast?_singleton,
        Option.some_or, getLast?_eq_some_getLast hlisted] at hlast
      have hall := directive.listed_all _ (getLast_mem hlisted)
      rw [← Option.some_inj.mp hlast, hreturn] at hall
      cases hall
    · rw [concat_eq_append, ← append_assoc] at htext
      obtain ⟨rfl, _⟩ := append_inj' htext rfl
      refine ⟨front, rfl, fun d hd => hrest d ?_⟩
      rw [Option.mem_def] at hd ⊢
      rw [concat_eq_append, head?_append, hd, Option.some_or]
  · rintro ⟨rest, rfl, hrest⟩
    refine ⟨rest ++ ['\r'], append_assoc _ _ _, fun d hd => ?_⟩
    rw [Option.mem_def, head?_append] at hd
    cases hhead : rest.head? with
    | none =>
        rw [hhead] at hd
        obtain rfl := Option.some_inj.mp hd
        exact hreturn
    | some c =>
        rw [hhead] at hd
        exact hrest d (hhead.trans hd)

end Directive

theorem codesAt?_eq_some_iff {codes : List String} : codesAt? text = some codes ↔
      ∃ directive : Directive, directive.Opens text ∧ directive.codes = codes :=
  ⟨Directive.opens_of_codesAt?, fun ⟨_, hopens, hcodes⟩ => hcodes ▸ hopens.codesAt?⟩

theorem codesAt?_eq_none_iff :
    codesAt? text = Option.none ↔ ∀ directive : Directive, ¬directive.Opens text := by
  rw [Option.eq_none_iff_forall_ne_some]
  constructor
  · exact fun h directive hopens => h _ hopens.codesAt?
  · intro h codes hcodes
    obtain ⟨directive, hopens, _⟩ := codesAt?_eq_some_iff.mp hcodes
    exact h directive hopens

theorem codesAt?_concat (text : List Char) : codesAt? (text ++ ['\r']) = codesAt? text := by
  refine Option.ext fun codes => ?_
  rw [codesAt?_eq_some_iff, codesAt?_eq_some_iff]
  simp only [Directive.opens_concat_iff]

/-! ## The first directive in a text -/

theorem codesIn_cons (c : Char) (rest : List Char) :
    codesIn (c :: rest) = (codesAt? (c :: rest)).getD (codesIn rest) := rfl

theorem codesIn_concat (text : List Char) : codesIn (text ++ ['\r']) = codesIn text := by
  induction text with
  | nil => decide
  | cons c rest ih =>
      rw [cons_append, codesIn_cons, codesIn_cons, ← cons_append, codesAt?_concat, ih]

theorem codesIn_append {front : List Char}
    (h : ∀ first second, front = first ++ second → second ≠ [] → codesAt? (second ++ text) =
      Option.none) : codesIn (front ++ text) = codesIn text := by
  induction front with
  | nil => rfl
  | cons c rest ih =>
      rw [cons_append, codesIn_cons, ← cons_append, h [] _ rfl (cons_ne_nil _ _), Option.getD_none]
      exact ih fun first second hsplit => h (c :: first) second (congrArg (c :: ·) hsplit)

theorem exists_codesAt? (h : codesIn text ≠ []) :
    ∃ front back, text = front ++ back ∧ codesAt? back ≠ Option.none := by
  by_contra hnone
  refine h ?_
  have hempty : codesIn (text ++ []) = codesIn [] := by
    refine codesIn_append fun first second hsplit _ => ?_
    by_contra hsome
    exact hnone ⟨first, second ++ [], by rw [append_nil, hsplit], hsome⟩
  rwa [append_nil] at hempty

theorem Directive.isFirst_cons {directive : Directive} (h : codesAt? (c :: rest) = Option.none) :
    directive.IsFirst (c :: rest) ↔ directive.IsFirst rest := by
  have hnone := codesAt?_eq_none_iff.mp h
  constructor
  · rintro ⟨index, hopens, hearlier⟩
    cases index with
    | zero => exact absurd hopens (hnone directive)
    | succ index =>
        exact ⟨index, hopens, fun earlier hlt => hearlier (earlier + 1) (Nat.succ_lt_succ hlt)⟩
  · rintro ⟨index, hopens, hearlier⟩
    refine ⟨index + 1, hopens, fun earlier hlt => ?_⟩
    cases earlier with
    | zero => exact hnone
    | succ earlier => exact hearlier earlier (Nat.lt_of_succ_lt_succ hlt)

theorem mem_codesIn_iff {code : String} :
    code ∈ codesIn text ↔ ∃ directive : Directive, directive.IsFirst text ∧
      code ∈ directive.codes := by
  induction text with
  | nil =>
      refine ⟨fun h => absurd h not_mem_nil, ?_⟩
      rintro ⟨directive, ⟨index, hopens, _⟩, _⟩
      rw [drop_nil] at hopens
      exact absurd hopens (codesAt?_eq_none_iff.mp (by decide) directive)
  | cons c rest ih =>
      rw [codesIn_cons]
      cases hcodes : codesAt? (c :: rest) with
      | none =>
          rw [Option.getD_none, ih]
          simp only [Directive.isFirst_cons hcodes]
      | some codes =>
          obtain ⟨first, hopens, rfl⟩ := codesAt?_eq_some_iff.mp hcodes
          refine ⟨fun h => ⟨first, ⟨0, hopens, fun _ hlt => absurd hlt (Nat.not_lt_zero _)⟩, h⟩, ?_⟩
          rintro ⟨directive, ⟨index, hopens', hearlier⟩, hcode⟩
          cases index with
          | zero =>
              rw [← Option.some_inj.mp (hopens'.codesAt?.symm.trans hcodes)]
              exact hcode
          | succ index => exact absurd hopens (hearlier 0 (Nat.succ_pos _) first)

end ContractAudit.Suppressions
