import ContractAudit.Audit
import ContractAudit.Proofs.Semantic.Resolution
import ContractAudit.Proofs.Text.Numeral

/-!
# Numerals that end a parse

A parse reports what is wrong with a text and goes on, but for one thing: a numeral with a digit
that has no decimal value, or with too many digits, ends it without a result. The scanner takes
every digit into a number, so such a numeral is found only when it is read. Syntax checks and
audits fail with the parse and otherwise do not.
-/

namespace ContractAudit

variable {error : Diagnostic} {source : String}

namespace Text.Numeral

/-- That each digit of a text is a decimal one, and that there are not too many of them. -/
def Convertible (text : String) : Prop :=
  (∀ c ∈ text.toList, isDigit c = true → (decimalValue? c).isSome = true) ∧
    text.toList.countP isDigit ≤ maxDigits

theorem read_of_convertible {text} (hnumeral : IsNumeral text.toList)
    (h : Convertible text) : ∃ value, read text = .ok value := by
  obtain ⟨digits, hne, hdigits, htext⟩ := hnumeral
  obtain ⟨hdecimal, hcount⟩ := h
  have hall : AllDecimal digits := fun c hc =>
    hdecimal c (by rcases htext with htext | htext <;> simp [htext, hc]) (hdigits c hc)
  have hminus : isDigit '-' = false := by decide
  have hlength : digits.length ≤ maxDigits := by
    rw [← List.countP_eq_length.mpr hdigits]
    rcases htext with htext | htext <;> simpa [htext, hminus] using hcount
  have hread := read_allDecimal hall hne hlength
  rw [← String.ofList_toList (s := text)]
  rcases htext with htext | htext
  · exact ⟨_, htext ▸ hread.1⟩
  · exact ⟨_, htext ▸ hread.2⟩

end Text.Numeral

open Text.Numeral

/-- A parse that fails has met a numeral of the text that cannot be read. -/
theorem refused_of_parse {error} (h : parse source = .error error) :
    ∃ token ∈ tokenize source, (token.kind = .int ∨ token.kind = .uint) ∧
      read token.value = .error error ∧ ¬Convertible token.value := by
  obtain ⟨token, htoken, hkind, hread⟩ := refuses_of_parseTokens h
  rw [ofTokens_tokenize_ahead] at htoken
  refine ⟨token, List.dropLast_subset _ htoken, hkind, hread, fun hconvertible => ?_⟩
  have hnumeral := (tokenize_lexical htoken).1.numeral hkind
  obtain ⟨value, hvalue⟩ := read_of_convertible hnumeral hconvertible
  rw [hread] at hvalue
  cases hvalue

/-! ## Errors by stage -/

theorem phase_of_parse {result} (h : parse source = .ok result)
    (herror : error ∈ result.errors) : error.phase = .parse ∧ error.code.phase = .parse := by
  obtain ⟨state, hrun, herrors⟩ := parseTokens_eq_ok.mp h
  rw [← herrors] at herror
  exact ((Parser.contract_orderly.done hrun).phase error herror).resolve_left List.not_mem_nil

theorem phase_of_analyzeContract {contract} (h : error ∈ (analyzeContract contract).errors) :
    error.phase = .semantic ∧ error.code.phase = .semantic := by
  rw [(analyzeContract_met contract).2, List.mem_append, List.mem_filterMap] at h
  rcases h with h | ⟨mention, _, h⟩
  · obtain ⟨hphase, hcode⟩ := Environment.kind_of_mem_declareAll h
    exact ⟨hphase, by rw [hcode]; rfl⟩
  · unfold Mention.error? at h
    split at h <;> cases h
    exact ⟨rfl, rfl⟩

theorem errorsOf_service (depth : Depth) (config : Config) (source file : String) :
    (Audit.ofText depth config source file).errorsOf .service =
      match parse source with
      | .ok _ => []
      | .error error => [Diagnostic.error .service .internalError
          s!"parse failed: {error.message}" .nowhere] := by
  unfold Audit.ofText
  cases hparse : parse source with
  | error error => rfl
  | ok result =>
      refine List.filter_eq_nil_iff.mpr fun error herror hservice => ?_
      rcases List.mem_append.mp herror with herror | herror
      · rw [(phase_of_parse hparse herror).1] at hservice
        cases hservice
      · rw [(phase_of_analyzeContract herror).1] at hservice
        cases hservice

/-- A parse gives a result, and then so does the syntax check and no audit ends in an internal
error; or the text has a numeral that cannot be read, and then that is the error of them all. -/
theorem parse_fails_only_on_numerals (source : String) : (∃ result, parse source = .ok result ∧
      (∃ validation, Validation.ofText source = .ok validation ∧
        validation.valid = result.success) ∧
      ∀ depth config file, (Audit.ofText depth config source file).errorsOf .service = []) ∨
    ∃ error, parse source = .error error ∧ Validation.ofText source = .error error ∧
      (∀ depth config file, (Audit.ofText depth config source file).errors =
        [Diagnostic.error .service .internalError s!"parse failed: {error.message}" .nowhere]) ∧
      ∃ token ∈ tokenize source, (token.kind = .int ∨ token.kind = .uint) ∧
        read token.value = .error error ∧ ¬Convertible token.value := by
  cases hparse : parse source with
  | ok result =>
      refine .inl ⟨result, rfl, ?_, fun depth config file => ?_⟩
      · rw [Validation.ofText, hparse]
        exact ⟨_, rfl, rfl⟩
      · rw [errorsOf_service, hparse]
  | error error =>
      refine .inr ⟨error, rfl, ?_, fun depth config file => ?_, refused_of_parse hparse⟩
      · rw [Validation.ofText, hparse]
        rfl
      · rw [Audit.ofText, hparse]
        rfl

def superscript : String :=
  "(define-constant x ²)"

theorem parse_superscript : parse superscript = .error (.malformed "²") ∧
      Validation.ofText superscript = .error (.malformed "²") ∧
      ∀ depth config file, (Audit.ofText depth config superscript file).errorsOf .service ≠ [] := by
  have hparse : parse superscript = .error (.malformed "²") :=
    parse_eq_error (by decide)
  refine ⟨hparse, ?_, fun depth config file => ?_⟩
  · rw [Validation.ofText, hparse]
    rfl
  · rw [errorsOf_service, hparse]
    exact List.cons_ne_nil _ _

end ContractAudit
