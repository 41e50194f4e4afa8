import ContractAudit.Proofs.Parse.Clean.Forms
import ContractAudit.Proofs.Syntax.Nesting

/-!
# Every token is accounted for

The tokens of a text that parses without errors spell the contract that the parse gives. So its
brackets are balanced, and no node of the contract stands in for something that could not be read.
-/

namespace ContractAudit

open Lexeme ContractAudit.Expr

/-! ## Placeholders -/

/-- A node that stands in for an expression that could not be read: it takes up no text. -/
def Node.IsPlaceholder (node : Node) : Prop :=
  ∃ location id, node = .expr (.identifier ⟨.point location, id⟩ Parse.placeholder)

def NoPlaceholder (nodes : List Node) : Prop :=
  ∀ node ∈ nodes, ¬node.IsPlaceholder

@[simp]
theorem noPlaceholder_nil : NoPlaceholder [] := by simp [NoPlaceholder]

@[simp]
theorem noPlaceholder_cons {node : Node} {rest} :
    NoPlaceholder (node :: rest) ↔ ¬node.IsPlaceholder ∧ NoPlaceholder rest := by
  simp [NoPlaceholder]

@[simp]
theorem noPlaceholder_append {first second} :
    NoPlaceholder (first ++ second) ↔ NoPlaceholder first ∧ NoPlaceholder second := by
  simp [NoPlaceholder, or_imp, forall_and]

theorem not_isPlaceholder_of_hasText {info} (h : info.span.HasText) (name : String) :
    ¬(Node.expr (.identifier info name)).IsPlaceholder := by
  rintro ⟨location, id, heq⟩
  cases heq
  exact Int.lt_irrefl _ h

theorem Pattern.noPlaceholder_postorder (pattern : Pattern) : NoPlaceholder pattern.postorder := by
  fun_induction Pattern.postorder pattern <;> simp_all [Node.IsPlaceholder]

section

attribute [local simp] Node.IsPlaceholder Expr.postorder Expr.postorderList Expr.postorderNamed
  postorderArms Form.parts Form.postorder

mutual

theorem SpellExpr.noPlaceholder {expr : Expr} {lexemes} :
    SpellExpr expr lexemes → NoPlaceholder expr.postorder
  | .literal _ _ _ _ => by simp
  | .localPrincipal _ _ _ _ => by simp
  | .identifier _ name _ _ htext => by simpa using not_isPlaceholder_of_hasText htext name
  | .call _ _ _ _ _ _ hargs => by simpa using hargs.noPlaceholder
  | .letIn _ _ _ _ _ hbindings hbody => by
      simpa using ⟨hbindings.noPlaceholder, hbody.noPlaceholder⟩
  | .block _ _ _ hbody => by simpa using hbody.noPlaceholder
  | .conditional _ _ _ _ _ _ _ hcondition hyes .absent => by
      simpa using ⟨hcondition.noPlaceholder, hyes.noPlaceholder⟩
  | .conditional _ _ _ _ _ _ _ hcondition hyes (.present _ _ hno) => by
      simpa using ⟨hcondition.noPlaceholder, hyes.noPlaceholder, hno.noPlaceholder⟩
  | .matchOn _ _ _ _ _ hsubject harms => by
      simpa using ⟨hsubject.noPlaceholder, harms.noPlaceholder⟩
  | .list _ _ _ helements => by simpa using helements.noPlaceholder
  | .parenTuple _ _ _ hfields => by simpa using hfields.noPlaceholder
  | .braceTuple _ _ _ hfields => by simpa using hfields.noPlaceholder

theorem SpellExprs.noPlaceholder {exprs lexemes} :
    SpellExprs exprs lexemes → NoPlaceholder (postorderList exprs)
  | .nil => by simp
  | .cons _ _ _ _ hexpr hrest => by simpa using ⟨hexpr.noPlaceholder, hrest.noPlaceholder⟩

theorem SpellBindings.noPlaceholder {bindings lexemes} :
    SpellBindings bindings lexemes → NoPlaceholder (postorderNamed .binding bindings)
  | .nil => by simp
  | .cons _ _ _ _ _ _ _ hvalue hrest => by
      simpa using ⟨hvalue.noPlaceholder, hrest.noPlaceholder⟩

theorem SpellArms.noPlaceholder {arms lexemes} :
    SpellArms arms lexemes → NoPlaceholder (postorderArms arms)
  | .nil => by simp
  | .arm _ pattern _ _ _ _ _ _ .absent hrest => by
      simpa using ⟨pattern.noPlaceholder_postorder, hrest.noPlaceholder⟩
  | .arm _ pattern _ _ _ _ _ _ (.present _ _ hbody) hrest => by
      simpa using ⟨pattern.noPlaceholder_postorder, hbody.noPlaceholder, hrest.noPlaceholder⟩
  | .absent _ info _ _ _ _ hbody hrest => by
      simpa using ⟨(Pattern.none info).noPlaceholder_postorder, hbody.noPlaceholder,
        hrest.noPlaceholder⟩

theorem SpellParenFields.noPlaceholder {fields lexemes} :
    SpellParenFields fields lexemes → NoPlaceholder (postorderNamed .field fields)
  | .nil => by simp
  | .cons _ _ _ _ _ _ _ hvalue hrest => by
      simpa using ⟨hvalue.noPlaceholder, hrest.noPlaceholder⟩

theorem SpellBraceFields.noPlaceholder {fields lexemes} :
    SpellBraceFields fields lexemes → NoPlaceholder (postorderNamed .field fields)
  | .nil => by simp
  | .last _ _ _ _ _ hvalue => by simpa using hvalue.noPlaceholder
  | .cons _ _ _ _ _ _ _ hvalue hrest => by
      simpa using ⟨hvalue.noPlaceholder, hrest.noPlaceholder⟩

end

theorem SpellForm.noPlaceholder {form : Form} {lexemes} (h : SpellForm form lexemes) :
    NoPlaceholder form.postorder := by
  have hparts : NoPlaceholder (postorderList form.parts) := by
    cases h with
    | function _ _ _ _ _ _ _ _ _ hbody => exact hbody.noPlaceholder
    | constant _ _ _ _ _ hvalue => simpa using hvalue.noPlaceholder
    | dataVar _ _ _ _ _ _ _ _ hinitial => simpa using hinitial.noPlaceholder
    | fungible _ _ _ _ _ hsupply =>
        cases hsupply with
        | absent => simp
        | present _ _ hexpr => simpa using hexpr.noPlaceholder
    | useTrait _ _ _ _ _ hreference => simpa using hreference.noPlaceholder
    | implTrait _ _ _ hreference => simpa using hreference.noPlaceholder
    | map | nonFungible | trait => simp
  simpa using hparts

end

theorem SpellForms.noPlaceholder {forms lexemes}
    (h : SpellForms forms lexemes) : NoPlaceholder (forms.flatMap Form.postorder) := by
  induction h with
  | nil => simp
  | cons _ _ _ _ hform _ ih => simpa using ⟨hform.noPlaceholder, ih⟩

/-! ## The parse of a text -/

/-- A text that parses without errors spells the contract that the parse gives: its tokens, in
order and without exception, are the contract read off. So its brackets are balanced, and no node of
the contract stands in for something that could not be read. -/
theorem parse_spells {source : String} {result : ParseResult} (h : parse source = .ok result)
    (hclean : result.errors = []) :
    SpellContract result.contract (lexemes (tokenize source).dropLast) ∧
      Balanced (lexemes (tokenize source).dropLast) ∧
      ∀ node ∈ result.contract.postorder, ¬node.IsPlaceholder := by
  have hspell := spellContract_of_parse h hclean
  refine ⟨hspell, hspell.balanced, ?_⟩
  show NoPlaceholder result.contract.postorder
  simpa [Contract.postorder, Node.IsPlaceholder] using hspell.noPlaceholder

def braces : String :=
  "(define-map m \x7bid: uint,\x7d (buff)) (impl-trait (match x (ok v) .a b))"

theorem parse_spells_braces : ∃ result, parse braces = .ok result ∧ result.errors = [] ∧
      SpellContract result.contract (lexemes (tokenize braces).dropLast) := by
  obtain ⟨result, hparse, hclean⟩ : ∃ result, parse braces = .ok result ∧ result.errors = [] :=
    exists_parse rfl (by decide +kernel)
  exact ⟨result, hparse, hclean, (parse_spells hparse hclean).1⟩

end ContractAudit
