import ContractAudit.Proofs.Parse.Reads.Forms

/-!
# Parsing undoes printing

The marks of a printable contract can all be scanned, so that the canonical text of the contract is
read as tokens that stand for its marks, and the parser reads the contract back from these.
-/

namespace ContractAudit

open List Bool Form

variable {contract : Contract} {pattern : Pattern}

/-- The scanner can read some marks as what they are. -/
def Readable (marks : List Mark) : Prop :=
  ∀ mark ∈ marks, mark.readable = true

@[simp]
theorem readable_nil : Readable [] := by simp [Readable]

@[simp]
theorem readable_cons {mark : Mark} {marks} :
    Readable (mark :: marks) ↔ mark.readable = true ∧ Readable marks := by
  simp [Readable]

@[simp]
theorem readable_append {first second} :
    Readable (first ++ second) ↔ Readable first ∧ Readable second := by
  simp [Readable, or_imp, forall_and]

@[simp]
theorem readable_parens {inner} : Readable (Mark.parens inner) ↔ Readable inner := by
  simp [Mark.parens, Mark.readable]

theorem readable_flatMap {α : Type} {items : List α} {marksOf}
    (h : ∀ x ∈ items, Readable (marksOf x)) : Readable (items.flatMap marksOf) := by
  intro mark hmark
  obtain ⟨x, hx, hmem⟩ := mem_flatMap.mp hmark
  exact h x hx mark hmem

/-! ## Types -/

mutual

theorem TypeSpec.readable_marks : ∀ {spec : TypeSpec}, spec.printable = true → Readable spec.marks
  | .named _ name params, h => by
      simp only [TypeSpec.printable, and_eq_true] at h
      rw [TypeSpec.marks]
      split
      · simpa [Mark.readable] using h.1.1
      · simpa [Mark.readable] using ⟨h.1.1, TypeSpec.readable_params h.2⟩
  | .tuple _ fields, h => by
      have hword : isPlainName "tuple" = true := by decide
      rw [TypeSpec.marks]
      simpa [Mark.readable, hword] using TypeSpec.readable_fields h

theorem TypeSpec.readable_params :
    ∀ {params : List TypeParam}, TypeSpec.printableParams params = true →
      Readable (TypeSpec.marksParams params)
  | [], _ => readable_nil
  | .size value :: rest, h => by
      simp only [TypeSpec.printableParams, and_eq_true] at h
      exact readable_cons.mpr ⟨h.1, TypeSpec.readable_params h.2⟩
  | .type spec :: rest, h => by
      simp only [TypeSpec.printableParams, and_eq_true] at h
      exact readable_append.mpr ⟨TypeSpec.readable_marks h.1, TypeSpec.readable_params h.2⟩

theorem TypeSpec.readable_fields :
    ∀ {fields : List (String × TypeSpec)}, TypeSpec.printableFields fields = true →
      Readable (TypeSpec.marksFields fields)
  | [], _ => readable_nil
  | (name, spec) :: rest, h => by
      simp only [TypeSpec.printableFields, and_eq_true] at h
      rw [TypeSpec.marksFields, readable_append, readable_parens, readable_cons]
      exact ⟨⟨h.1.1, TypeSpec.readable_marks h.1.2⟩, TypeSpec.readable_fields h.2⟩

end

/-! ## Patterns and expressions -/

theorem Wrapper.isPlainName_label (kind : Wrapper) : isPlainName kind.label = true := by
  cases kind <;> decide

theorem Pattern.readable_bareMarks (h : pattern.printable = true) : Readable pattern.bareMarks := by
  fun_induction Pattern.bareMarks pattern with
  | case1 info kind => simpa [Mark.readable] using kind.isPlainName_label
  | case2 info kind inner ih => exact readable_cons.mpr ⟨kind.isPlainName_label, ih h⟩
  | case3 info =>
      have hword : isPlainName "none" = true := by decide
      simpa [Mark.readable] using hword
  | case4 info name =>
      simp only [Pattern.printable, and_eq_true] at h
      simpa [Mark.readable] using h.1
  | case5 info place value => exact readable_cons.mpr ⟨h, readable_nil⟩

theorem Pattern.readable_marks (h : pattern.printable = true) : Readable pattern.marks := by
  have hbare := Pattern.readable_bareMarks h
  cases pattern with
  | wrapper info kind inner => exact readable_parens.mpr hbare
  | none info => exact hbare
  | identifier info name => exact hbare
  | literal info place value => exact hbare

theorem readable_form {word marks} (h : Readable marks)
    (hword : word ∈ formWords := by decide) : Readable (Mark.parens (.word word :: marks)) := by
  have hall : formWords.all isPlainName = true := by decide
  exact readable_parens.mpr (readable_cons.mpr ⟨all_eq_true.mp hall word hword, h⟩)

mutual

theorem Expr.readable_marks :
    ∀ {levels : Nat} {expr : Expr}, expr.printable levels = true → Readable expr.marks
  | _, .literal _ value, h => by exact readable_cons.mpr ⟨h, readable_nil⟩
  | _, .identifier _ name, h => by exact readable_cons.mpr ⟨h, readable_nil⟩
  | _, .call _ callee args, h => by
      simp only [Expr.printable, isCallee, and_eq_true] at h
      rw [Expr.marks, readable_parens, readable_cons]
      exact ⟨h.1.2.1, Expr.readable_list h.2⟩
  | _, .letIn _ bindings body, h => by
      simp only [Expr.printable, and_eq_true] at h
      refine readable_form (readable_append.mpr ⟨readable_parens.mpr ?_, Expr.readable_list h.2⟩)
      exact Expr.readable_named h.1.2
  | _, .block _ body, h => by
      simp only [Expr.printable, and_eq_true] at h
      exact readable_form (Expr.readable_list h.2)
  | _, .conditional _ condition yes none, h => by
      simp only [Expr.printable, and_eq_true] at h
      exact readable_form (readable_append.mpr ⟨Expr.readable_marks h.1.2, Expr.readable_marks h.2⟩)
  | _, .conditional _ condition yes (some no), h => by
      simp only [Expr.printable, and_eq_true] at h
      refine readable_form (readable_append.mpr ⟨Expr.readable_marks h.1.1.2, ?_⟩)
      exact readable_append.mpr ⟨Expr.readable_marks h.1.2, Expr.readable_marks h.2⟩
  | _, .matchOn _ subject arms, h => by
      simp only [Expr.printable, and_eq_true] at h
      exact readable_form (readable_append.mpr ⟨Expr.readable_marks h.1.2, Expr.readable_arms h.2⟩)
  | _, .list _ elements, h => by
      simp only [Expr.printable, and_eq_true] at h
      exact readable_form (Expr.readable_list h.2)
  | _, .tuple _ fields, h => by
      simp only [Expr.printable, and_eq_true] at h
      exact readable_form (Expr.readable_named h.2)

theorem Expr.readable_list :
    ∀ {levels : Nat} {exprs : List Expr}, Expr.printableList levels exprs = true →
      Readable (Expr.marksList exprs)
  | _, [], _ => readable_nil
  | _, expr :: rest, h => by
      simp only [Expr.printableList, and_eq_true] at h
      exact readable_append.mpr ⟨Expr.readable_marks h.1, Expr.readable_list h.2⟩

theorem Expr.readable_named :
    ∀ {levels : Nat} {fields : List (Named Expr)}, Expr.printableNamed levels fields = true →
      Readable (Expr.marksNamed fields)
  | _, [], _ => readable_nil
  | _, ⟨_, name, value⟩ :: rest, h => by
      simp only [Expr.printableNamed, and_eq_true] at h
      rw [Expr.marksNamed, readable_append, readable_parens, readable_cons]
      exact ⟨⟨h.1.1, Expr.readable_marks h.1.2⟩, Expr.readable_named h.2⟩

theorem Expr.readable_arms :
    ∀ {levels : Nat} {arms : List (Arm Expr)}, Expr.printableArms levels arms = true →
      Readable (Expr.marksArms arms)
  | _, [], _ => readable_nil
  | _, ⟨_, _, []⟩ :: _, h | _, ⟨_, _, _ :: _ :: _⟩ :: _, h => nomatch h
  | _, ⟨_, pattern, [expr]⟩ :: rest, h => by
      simp only [Expr.printableArms, and_eq_true] at h
      rw [Expr.marksArms, Expr.marksList_eq, flatMap_singleton, readable_append, readable_append]
      exact ⟨Pattern.readable_marks h.1.1, Expr.readable_marks h.1.2, Expr.readable_arms h.2⟩

end

/-! ## Forms -/

theorem Parameter.readable_marks {param : Parameter} (hname : isPlainName param.name = true)
    (htype : param.type.printable = true) : Readable param.marks := by
  rw [Parameter.marks, readable_parens, readable_cons]
  exact ⟨hname, TypeSpec.readable_marks htype⟩

theorem TraitFunction.readable_marks {function : TraitFunction} (h : function.printable = true) :
    Readable function.marks := by
  simp only [TraitFunction.printable, and_eq_true, all_eq_true] at h
  rw [TraitFunction.marks, readable_parens, readable_cons, readable_append, readable_parens]
  exact ⟨h.1.1, readable_flatMap fun spec hspec => TypeSpec.readable_marks (h.1.2 spec hspec),
    TypeSpec.readable_marks h.2⟩

theorem Form.readable_marks {form : Form} (h : form.printable = true) : Readable form.marks := by
  cases form with
  | function definition =>
      obtain ⟨info, name, visibility, params, exprs⟩ := definition
      simp only [printable, and_eq_true, all_eq_true] at h
      refine readable_form
        (readable_append.mpr ⟨readable_parens.mpr (readable_cons.mpr ⟨h.1.1, ?_⟩),
        Expr.readable_list h.2⟩) (by cases visibility <;> decide)
      exact readable_flatMap fun param hparam =>
        Parameter.readable_marks (h.1.2 param hparam).1 (h.1.2 param hparam).2
  | constant info name value =>
      simp only [printable, and_eq_true] at h
      exact readable_form (readable_cons.mpr ⟨h.1, Expr.readable_marks h.2⟩)
  | map info name key value =>
      simp only [printable, and_eq_true] at h
      refine readable_form (readable_cons.mpr ⟨h.1.1, readable_append.mpr ?_⟩)
      exact ⟨TypeSpec.readable_marks h.1.2, TypeSpec.readable_marks h.2⟩
  | dataVar info name type initial =>
      simp only [printable, and_eq_true] at h
      refine readable_form (readable_cons.mpr ⟨h.1.1, readable_append.mpr ?_⟩)
      exact ⟨TypeSpec.readable_marks h.1.2, Expr.readable_marks h.2⟩
  | nonFungible info name type =>
      simp only [printable, and_eq_true] at h
      exact readable_form (readable_cons.mpr ⟨h.1, TypeSpec.readable_marks h.2⟩)
  | fungible info name supply =>
      simp only [printable, and_eq_true] at h
      exact readable_form (readable_cons.mpr ⟨h.1, Expr.readable_list h.2⟩)
  | trait info name functions =>
      simp only [printable, and_eq_true, all_eq_true] at h
      refine readable_form (readable_cons.mpr ⟨h.1, readable_parens.mpr (readable_flatMap ?_)⟩)
      exact fun function hfunction => TraitFunction.readable_marks (h.2 function hfunction)
  | useTrait info name reference =>
      simp only [printable, and_eq_true] at h
      exact readable_form (readable_cons.mpr ⟨h.1, Expr.readable_marks h.2⟩)
  | implTrait info reference =>
      exact readable_form (Expr.readable_marks h)

/-! ## Contracts -/

/-- The parser reads a printable contract back from its canonical text. -/
theorem contract_run_print (h : contract.printable = true) :
    ∃ found state, Parser.contract Parser.expr (.ofTokens (tokenize contract.print)) =
      .done found state ∧
      found.erase = contract.erase ∧ state.errors = [] := by
  have hwritten : Written (contract.body.flatMap marks) (tokenize contract.print).dropLast :=
    written_tokenize (readable_flatMap fun form hform =>
      readable_marks (all_eq_true.mp h form hform))
  have hahead : (Parse.State.ofTokens (tokenize contract.print)).ahead =
      (tokenize contract.print).dropLast ++ [] := by
    rw [ofTokens_tokenize_ahead, append_nil]
  obtain ⟨found, state, hrun, hfound, _, herrors⟩ := Parser.contract_reads h hwritten
    (fun token htoken => tokenize_lexical htoken) hahead rfl
  exact ⟨found, state, hrun, hfound, herrors⟩

/-- Printable contracts with one canonical text are the same up to places and numbers. -/
theorem erase_eq_of_print {contract' : Contract} (h : contract.printable = true)
    (h' : contract'.printable = true) (hprint : contract.print = contract'.print) :
    contract.erase = contract'.erase := by
  -- The parser reads both contracts from the same tokens.
  obtain ⟨found, state, hrun, hfound, _⟩ := contract_run_print h
  obtain ⟨found', state', hrun', hfound', _⟩ := contract_run_print h'
  rw [hprint, hrun'] at hrun
  cases hrun
  rw [← hfound, hfound']

/-- The canonical text of a printable contract parses without errors, and the contract that the
parse gives is the printed one up to its places and numbers. -/
theorem parse_print {contract : Contract} (h : contract.printable = true) :
    ∃ result, parse contract.print = .ok result ∧ result.errors = [] ∧
      result.contract.erase = contract.erase := by
  obtain ⟨found, state, hrun, hfound, herrors⟩ := contract_run_print h
  refine ⟨⟨found, state.errors⟩, ?_, herrors, hfound⟩
  exact parseTokens_eq_ok.mpr ⟨state, hrun, rfl⟩

def settlement : Contract :=
  let at0 : NodeInfo := .nowhere
  ⟨at0, [.useTrait at0 "token" (.literal at0 (.principal "SP2" (some "tokens.ft"))),
    .constant at0 "note" (.literal at0 (.string "a \"b\" \\ c" .utf8)),
    .dataVar at0 "limit" (.named .nowhere "optional" [.type (.named .nowhere "int" [])])
      (.call at0 "some" [.literal at0 (.int (-12))]),
    .map at0 "paid" (.tuple .nowhere [("by", .named .nowhere "principal" [])])
      (.named .nowhere "buff" [.size 32]),
    .function ⟨at0, "settle", .external, [⟨"amount", .named .nowhere "uint" [], .nowhere⟩], [
      .letIn at0 [
        ⟨at0, "fee", .call at0 "/" [.identifier at0 "amount", .literal at0 (.uint 100)]⟩] [
        .conditional at0 (.call at0 ">" [.identifier at0 "fee", .literal at0 (.uint 0)])
          (.matchOn at0 (.call at0 "vault.v1.pay" [.identifier at0 "fee"]) [
            ⟨at0, .wrapper at0 .ok (some (.wrapper at0 .some (some (.identifier at0 "x")))),
              [.tuple at0 [⟨at0, "x", .identifier at0 "x"⟩]]⟩,
            ⟨at0, .wrapper at0 .err none, [.list at0 []]⟩])
          (some (.block at0 [.literal at0 (.buffer "00ff"), .identifier at0 "list"]))]]⟩]⟩

theorem parse_print_settlement :
    settlement.printable = true ∧ ∃ result, parse settlement.print = .ok result ∧
      result.errors = [] ∧ result.contract.erase = settlement.erase :=
  ⟨by decide, parse_print (by decide)⟩

end ContractAudit
