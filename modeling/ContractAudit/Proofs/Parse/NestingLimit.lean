import ContractAudit.Proofs.Parse.Append

/-!
# The nesting limit

A parse gives no tree that nests deeper than the limit. For a text that nests deeper and has nothing
else wrong with it, the parse gives the tree of the whole text with each outermost expression beyond
the limit replaced by a placeholder, and reports each of them once. After a form with such an error
the parse goes on at the form right behind it, because that one starts with a definition.
-/

namespace ContractAudit

open Parse List ContractAudit.Parser State Contract

/-- Cutting a parse down to fewer levels is parsing with fewer levels. -/
theorem parseTokensWithin_cut {source} {more : Nat} {whole}
    (h : parseTokensWithin more (tokenize source) = .ok whole) (hclean : whole.errors = [])
    (levels : Nat) :
    ∃ result, parseTokensWithin levels (tokenize source) = .ok result ∧
      result.contract.same (whole.contract.cut levels) = true ∧
      result.errors = (whole.contract.overdeep levels).map tooDeep := by
  obtain ⟨state, hrun, herrors⟩ := parseTokensWithin_eq_ok.mp h
  rw [contract, peek_bind_run] at hrun
  obtain ⟨found, s₁, hforms, hrun⟩ := bind_eq_done.mp hrun
  obtain ⟨⟨info, body⟩, errors⟩ := whole
  cases hrun
  have hclean₁ : s₁.errors = [] := herrors.trans hclean
  have hnothing (state : State) (id : Nat) (errors : List Diagnostic) :
      state.elsewhere { ofTokens (tokenize source) with ahead := [], live := by simp } id errors =
        { ofTokens (tokenize source) with
          previous := state.previous
          ahead := state.ahead
          live := state.live
          nextId := id
          errors := errors } := by
    simp [elsewhere]
  obtain ⟨forms, forms', id', errors', rfl, hmatches, _, hforms'⟩ := (forms_follows
    (exprWithin_follows levels more (by simp) : Follows False _ _ _)
    (exprWithin_orderly more) (exprWithin_orderly levels) (lexical_ofTokens source)
    hforms hclean₁).2 { ofTokens (tokenize source) with ahead := [], live := by simp }
      0 [] (by simp)
      (.inr rfl)
  obtain ⟨hagree, herrors'⟩ := hmatches.cut
  have hend : s₁.ahead = [] := forms_rec (exprWithin_orderly more)
    (motive := fun _ _ => s₁.ahead = []) id (fun _ _ _ ih => ih) hforms
  have hrest := hforms' [] _ (forms_nil (by rw [hnothing]; exact hend))
  rw [hnothing, hnothing, append_nil] at hrest
  refine ⟨⟨⟨⟨⟨(ofTokens (tokenize source)).current.location, s₁.previous.finish⟩, id'⟩,
    (forms'.map some).filterMap id⟩, errors'⟩, parseTokensWithin_eq_ok.mpr ⟨_,
      bind_eq_done.mpr ⟨_, _, rfl, bind_eq_done.mpr ⟨_, _, hrest, rfl⟩⟩, rfl⟩, ?_, ?_⟩
  · simpa [same, cut] using hagree
  · simpa [overdeep] using herrors'

/-- No tree of a parse goes through more than 128 compound expressions on a way down. A text that
has nothing wrong with it but deeper nesting is parsed to its whole tree with each outermost
expression beyond that replaced by a placeholder, with one error for each of them and no other. -/
theorem parse_cuts_nesting :
    (∀ (tokens : List Token) (result : ParseResult), parseTokens tokens = .ok result →
      ∀ form ∈ result.contract.body, ∀ path, Node.IsWay (.form form :: path) →
        (Node.form form :: path).countP Node.isCompound ≤ 128) ∧
    ∀ (source : String) (levels : Nat) (whole : ParseResult),
      parseTokensWithin levels (tokenize source) = .ok whole → whole.errors = [] →
      ∃ result, parse source = .ok result ∧ result.contract.same (whole.contract.cut 128) = true ∧
        result.errors = (whole.contract.overdeep 128).map tooDeep := by
  constructor
  · intro tokens result h form hform
    obtain ⟨_, hrun, _⟩ := parseTokens_eq_ok.mp h
    obtain ⟨s₁, hgrown, _⟩ := Parser.contract_grown hrun
    exact hgrown.shallow _ (List.mem_map_of_mem hform)
  · intro source levels whole h hclean
    obtain ⟨result, hresult, hcut⟩ := parseTokensWithin_cut h hclean Parser.maxNesting
    exact ⟨result, hresult, hcut⟩

def towerChars : List Char :=
  "(define-constant x ".toList ++ (List.replicate 129 "(f".toList).flatten ++
    List.replicate 130 ')' ++ "(define-constant y (f))".toList

def tower : String :=
  String.ofList towerChars

theorem parseTokensWithin_tower :
    ∃ whole, parseTokensWithin 129 (tokenize tower) = .ok whole ∧ whole.errors = [] ∧
      whole.contract.body ≠ [] ∧ whole.contract.overdeep 128 = [⟨1, 276, 275⟩] := by
  have hany : (parseTokensWithin 129 (tokensOf towerChars)).toOption.any (fun whole =>
      whole.errors.isEmpty && !whole.contract.body.isEmpty &&
        whole.contract.overdeep 128 = [⟨1, 276, 275⟩]) = true := by
    decide +kernel
  rw [← tokenize_eq_tokensOf (rfl : tower = String.ofList towerChars)] at hany
  cases hparse : parseTokensWithin 129 (tokenize tower) with
  | error error =>
      rw [hparse] at hany
      cases hany
  | ok whole =>
      rw [hparse] at hany
      have hdata : (whole.errors = [] ∧ whole.contract.body ≠ []) ∧
          whole.contract.overdeep 128 = [⟨1, 276, 275⟩] := by
        simpa [Except.toOption] using hany
      exact ⟨whole, rfl, hdata.1.1, hdata.1.2, hdata.2⟩

theorem parse_cuts_nesting_tower :
    ∃ whole result, parseTokensWithin 129 (tokenize tower) = .ok whole ∧ whole.errors = [] ∧
      parse tower = .ok result ∧ result.contract.same (whole.contract.cut 128) = true ∧
      result.errors = [tooDeep ⟨1, 276, 275⟩] ∧
      ∃ form ∈ result.contract.body, ∀ path, Node.IsWay (.form form :: path) →
        (Node.form form :: path).countP Node.isCompound ≤ 128 := by
  obtain ⟨whole, hwhole, hclean, hbody, hdeep⟩ := parseTokensWithin_tower
  obtain ⟨result, hresult, hsame, herrors⟩ := parse_cuts_nesting.2 tower 129 whole hwhole hclean
  have hlength : result.contract.body.length = whole.contract.body.length := by
    simp only [Contract.same, Contract.cut, agree, Bool.and_eq_true, decide_eq_true_eq,
      List.length_map] at hsame
    exact hsame.2.1
  have hne : result.contract.body ≠ [] := by
    intro hnil
    rw [hnil] at hlength
    exact hbody (List.length_eq_zero_iff.mp hlength.symm)
  obtain ⟨form, hform⟩ := List.exists_mem_of_ne_nil _ hne
  exact ⟨whole, result, hwhole, hclean, hresult, hsame, by rw [herrors, hdeep]; rfl, form, hform,
    parse_cuts_nesting.1 _ result hresult form hform⟩

end ContractAudit
