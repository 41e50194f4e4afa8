import ContractAudit.Proofs.Parse.Run
import ContractAudit.Proofs.Parse.Spelling
import ContractAudit.Proofs.Syntax.Nesting
import ContractAudit.Proofs.Token.Lexical

/-!
# Balanced brackets

The brackets of a spelling are balanced. The parser finds the end of a form by counting brackets in
two places: to see what follows a form in parentheses, and to pass over an expression that is nested
too deeply. Over a spelling the count comes out right.
-/

namespace ContractAudit

open Parse Lexeme List TokenKind

variable {token : Token} {arm : Arm Expr} {lexemes₀ : List Lexeme} {expr : Expr} {lexeme : Lexeme}
  {name : String}

/-- A bracket or the end of input. -/
def TokenKind.isBound : TokenKind → Bool
  | .leftParen | .rightParen | .leftBrace | .rightBrace | .endOfInput => true
  | _ => false

/-- Lexemes in which every bracket has its counterpart, properly nested. -/
inductive Balanced : List Lexeme → Prop where
  | nil : Balanced []
  | plain (lexeme rest) :
      lexeme.kind.isBound = false → Balanced rest → Balanced (lexeme :: rest)
  | parens (inner rest) :
      Balanced inner → Balanced rest → Balanced (parens inner ++ rest)
  | braces (inner rest) :
      Balanced inner → Balanced rest → Balanced (braces inner ++ rest)

namespace Balanced

variable {first second inner : List Lexeme}

theorem append (hfirst : Balanced first) (hsecond : Balanced second) :
    Balanced (first ++ second) := by
  induction hfirst with
  | nil => exact hsecond
  | plain lexeme rest hkind _ ih => exact .plain lexeme _ hkind ih
  | parens inner rest hinner _ _ ih =>
      rw [append_assoc]
      exact .parens inner _ hinner ih
  | braces inner rest hinner _ _ ih =>
      rw [append_assoc]
      exact .braces inner _ hinner ih

theorem inParens (h : Balanced inner) : Balanced (Lexeme.parens inner) := by
  rw [← append_nil (Lexeme.parens inner)]
  exact .parens inner [] h .nil

theorem inBraces (h : Balanced inner) : Balanced (Lexeme.braces inner) := by
  rw [← append_nil (Lexeme.braces inner)]
  exact .braces inner [] h .nil

theorem cons_word (name : String) (h : Balanced first) : Balanced (word name :: first) := by
  refine .plain _ _ ?_ h
  rcases Scan.wordKind_cases name.toList with ⟨hkind, _⟩ | hkind | hkind <;>
    simp [word, hkind, isBound]

theorem cons_dot (h : Balanced first) : Balanced (dot :: first) :=
  .plain _ _ rfl h

theorem cons_comma (h : Balanced first) : Balanced (comma :: first) :=
  .plain _ _ rfl h

theorem cons_colon (h : Balanced first) : Balanced (colon :: first) :=
  .plain _ _ rfl h

end Balanced

theorem SpellName.balanced {lexemes} (h : SpellName name lexemes) : Balanced lexemes := by
  induction h with
  | word name _ => exact .cons_word name .nil
  | dotted first last lexemes _ _ ih => exact ih.append (.cons_dot (.cons_word last .nil))

theorem SpellLiteral.balanced {value} (h : SpellLiteral value lexeme) : Balanced [lexeme] := by
  cases h <;> exact .plain _ _ rfl .nil

mutual

theorem SpellType.balanced {type lexemes} : SpellType type lexemes → Balanced lexemes
  | .word _ name _ => .cons_word name .nil
  | .named _ name _ _ _ _ hparams => .inParens (.cons_word name hparams.balanced)
  | .parenTuple _ _ _ hfields => .inParens (.cons_word _ hfields.balanced)
  | .braceTuple _ _ _ hfields => .inBraces hfields.balanced

theorem SpellParams.balanced {params lexemes} : SpellParams params lexemes → Balanced lexemes
  | .nil => .nil
  | .size _ lexeme _ _ hsize hrest => by
      refine .plain lexeme _ ?_ hrest.balanced
      rcases hsize.1 with hkind | hkind <;> simp [hkind, isBound]
  | .type _ _ _ _ hspec hrest => hspec.balanced.append hrest.balanced

theorem SpellParenTypeFields.balanced {fields lexemes} :
    SpellParenTypeFields fields lexemes → Balanced lexemes
  | .nil => .nil
  | .cons name _ _ _ _ _ hspec hrest =>
      (Balanced.inParens (.cons_word name hspec.balanced)).append hrest.balanced

theorem SpellBraceTypeFields.balanced {fields lexemes} :
    SpellBraceTypeFields fields lexemes → Balanced lexemes
  | .nil => .nil
  | .last name _ _ _ hspec => .cons_word name (.cons_colon hspec.balanced)
  | .cons name _ _ _ _ _ hspec hrest =>
      .cons_word name (.cons_colon (hspec.balanced.append (.cons_comma hrest.balanced)))

end

theorem SpellTypes.balanced {types lexemes} (h : SpellTypes types lexemes) : Balanced lexemes := by
  induction h with
  | nil => exact .nil
  | cons _ _ _ _ htype _ ih => exact htype.balanced.append ih

mutual

theorem SpellPattern.balanced {pattern lexemes} : SpellPattern pattern lexemes → Balanced lexemes
  | .wrapper _ _ _ _ hinner => .cons_word _ hinner.balanced
  | .parenWrapper _ _ _ _ hinner => .inParens (.cons_word _ hinner.balanced)
  | .none _ => .cons_word _ .nil
  | .parenNone _ => .inParens (.cons_word _ .nil)
  | .identifier _ name _ => .cons_word name .nil
  | .literal _ _ _ _ hvalue => hvalue.balanced

theorem SpellInner.balanced {pattern lexemes} : SpellInner pattern lexemes → Balanced lexemes
  | .absent => .nil
  | .present _ _ hpattern => hpattern.balanced

end

/-- An expression that is not a name or a literal stands in brackets of its own. -/
def Bracketed (expr : Expr) (lexemes : List Lexeme) : Prop :=
  Balanced lexemes ∧ (expr.isCompound = true →
    ∃ inner, Balanced inner ∧ (lexemes = parens inner ∨ lexemes = braces inner))

theorem Bracketed.inParens {inner} (h : Balanced inner) : Bracketed expr (parens inner) :=
  ⟨h.inParens, fun _ => ⟨inner, h, .inl rfl⟩⟩

mutual

theorem SpellExpr.bracketed {expr : Expr} {lexemes} :
    SpellExpr expr lexemes → Bracketed expr lexemes
  | .literal _ _ _ hvalue => ⟨hvalue.balanced, nofun⟩
  | .localPrincipal _ _ _ hname => ⟨.cons_dot hname.balanced, nofun⟩
  | .identifier _ _ _ hname _ => ⟨hname.balanced, nofun⟩
  | .call _ _ _ _ _ hname hargs => .inParens (hname.balanced.append hargs.balanced)
  | .letIn _ _ _ _ _ hbindings hbody =>
      .inParens (.cons_word _ ((Balanced.inParens hbindings.balanced).append hbody.balanced))
  | .block _ _ _ hbody => .inParens (.cons_word _ hbody.balanced)
  | .conditional _ _ _ _ _ _ _ hcondition hyes hno =>
      .inParens (.cons_word _ ((hcondition.bracketed.1.append hyes.bracketed.1).append
        hno.balanced))
  | .matchOn _ _ _ _ _ hsubject harms =>
      .inParens (.cons_word _ (hsubject.bracketed.1.append harms.balanced))
  | .list _ _ _ helements => .inParens (.cons_word _ helements.balanced)
  | .parenTuple _ _ _ hfields => .inParens (.cons_word _ hfields.balanced)
  | .braceTuple _ _ _ hfields =>
      ⟨.inBraces hfields.balanced, fun _ => ⟨_, hfields.balanced, .inr rfl⟩⟩

theorem SpellOptional.balanced {expr lexemes} : SpellOptional expr lexemes → Balanced lexemes
  | .absent => .nil
  | .present _ _ hexpr => hexpr.bracketed.1

theorem SpellExprs.balanced {exprs lexemes} : SpellExprs exprs lexemes → Balanced lexemes
  | .nil => .nil
  | .cons _ _ _ _ hexpr hrest => hexpr.bracketed.1.append hrest.balanced

theorem SpellBindings.balanced {bindings lexemes} :
    SpellBindings bindings lexemes → Balanced lexemes
  | .nil => .nil
  | .cons _ name _ _ _ _ _ hvalue hrest =>
      (Balanced.inParens (.cons_word name hvalue.bracketed.1)).append hrest.balanced

theorem SpellArms.balanced {arms lexemes} : SpellArms arms lexemes → Balanced lexemes
  | .nil => .nil
  | .arm _ _ _ _ _ _ _ hpattern hbody hrest =>
      (hpattern.balanced.append hbody.balanced).append hrest.balanced
  | .absent _ _ _ _ _ _ hbody hrest => hbody.bracketed.1.append hrest.balanced

theorem SpellParenFields.balanced {fields lexemes} :
    SpellParenFields fields lexemes → Balanced lexemes
  | .nil => .nil
  | .cons _ name _ _ _ _ _ hvalue hrest =>
      (Balanced.inParens (.cons_word name hvalue.bracketed.1)).append hrest.balanced

theorem SpellBraceFields.balanced {fields lexemes} :
    SpellBraceFields fields lexemes → Balanced lexemes
  | .nil => .nil
  | .last _ name _ _ _ hvalue => .cons_word name (.cons_colon hvalue.bracketed.1)
  | .cons _ name _ _ _ _ _ hvalue hrest =>
      .cons_word name (.cons_colon (hvalue.bracketed.1.append (.cons_comma hrest.balanced)))

end

theorem SpellExpr.balanced {lexemes} (h : SpellExpr expr lexemes) : Balanced lexemes :=
  h.bracketed.1

theorem SpellParameters.balanced {params lexemes}
    (h : SpellParameters params lexemes) : Balanced lexemes := by
  induction h with
  | nil => exact .nil
  | cons name _ _ _ _ _ _ htype _ ih =>
      exact (Balanced.inParens (.cons_word name htype.balanced)).append ih

theorem SpellTraitFunctions.balanced {functions lexemes}
    (h : SpellTraitFunctions functions lexemes) : Balanced lexemes := by
  induction h with
  | nil => exact .nil
  | cons name _ _ _ _ _ _ _ _ hargs hresult _ ih =>
      exact (Balanced.inParens (.cons_word name
        ((Balanced.inParens hargs.balanced).append hresult.balanced))).append ih

theorem SpellForm.balanced {form : Form} {lexemes} : SpellForm form lexemes → Balanced lexemes
  | .function _ name _ _ _ _ _ _ hparams hbody => .inParens (.cons_word _
      ((Balanced.inParens (.cons_word name hparams.balanced)).append hbody.balanced))
  | .constant _ name _ _ _ hvalue => .inParens (.cons_word _ (.cons_word name hvalue.balanced))
  | .map _ name _ _ _ _ _ hkey hvalue =>
      .inParens (.cons_word _ (.cons_word name (hkey.balanced.append hvalue.balanced)))
  | .dataVar _ name _ _ _ _ _ htype hinitial =>
      .inParens (.cons_word _ (.cons_word name (htype.balanced.append hinitial.balanced)))
  | .nonFungible _ name _ _ _ htype => .inParens (.cons_word _ (.cons_word name htype.balanced))
  | .fungible _ name _ _ _ hsupply => .inParens (.cons_word _ (.cons_word name hsupply.balanced))
  | .trait _ name _ _ _ hfunctions =>
      .inParens (.cons_word _ (.cons_word name (.inParens hfunctions.balanced)))
  | .useTrait _ name _ _ _ hreference =>
      .inParens (.cons_word _ (.cons_word name hreference.balanced))
  | .implTrait _ _ _ hreference => .inParens (.cons_word _ hreference.balanced)

theorem SpellForms.balanced {forms lexemes} (h : SpellForms forms lexemes) : Balanced lexemes := by
  induction h with
  | nil => exact .nil
  | cons _ _ _ _ hform _ ih => exact hform.balanced.append ih

/-! ## First tokens -/

theorem SpellName.ne_nil {lexemes} (h : SpellName name lexemes) : lexemes ≠ [] := by
  cases h <;> simp

theorem SpellExpr.ne_nil {lexemes} (h : SpellExpr expr lexemes) : lexemes ≠ [] := by
  cases h with
  | identifier _ _ _ hname _ => exact hname.ne_nil
  | _ => simp [Lexeme.parens, Lexeme.braces]

namespace Parser

variable {used tokens inner : List Token}

/-! ## What follows a form -/

theorem moreFollows_append {depth : Nat} (h : moreFollows depth tokens = true) (more : List Token) :
    moreFollows depth (tokens ++ more) = true := by
  induction tokens generalizing depth with
  | nil => cases h
  | cons token rest ih =>
      rw [cons_append]
      by_cases hleft : token.kind = .leftParen
      · rw [moreFollows_leftParen hleft] at h ⊢
        exact ih h
      by_cases hright : token.kind = .rightParen
      · rw [moreFollows_rightParen hright] at h ⊢
        split at h
        · next hdepth =>
            rw [if_pos hdepth]
            cases rest with
            | nil => cases h
            | cons next rest => exact h
        · next hdepth =>
            rw [if_neg hdepth]
            exact ih h
      by_cases hend : token.kind = .endOfInput
      · simp [moreFollows, hend] at h
      rw [moreFollows_cons hleft hright hend] at h ⊢
      exact ih h

theorem lexemes_eq_bracketed {opening closing inner later}
    (h : lexemes tokens = opening :: (inner ++ [closing]) ++ later) :
    ∃ first middle last rest, tokens = first :: (middle ++ last :: rest) ∧
      first.kind = opening.kind ∧ last.kind = closing.kind ∧
      lexemes middle = inner ∧ lexemes rest = later := by
  rw [cons_append, append_assoc, singleton_append] at h
  obtain ⟨first, others, rfl, hfirst, hothers⟩ := map_eq_cons_iff.mp h
  obtain ⟨middle, rest, rfl, hmiddle, hrest⟩ := map_eq_append_iff.mp hothers
  obtain ⟨last, rest, rfl, hlast, hrest⟩ := map_eq_cons_iff.mp hrest
  exact ⟨first, middle, last, rest, rfl, congrArg Lexeme.kind hfirst,
    congrArg Lexeme.kind hlast, hmiddle, hrest⟩

/-- Inside a form, balanced tokens are passed over. -/
theorem moreFollows_balanced (hbalanced : Balanced lexemes₀) (hinner : lexemes inner = lexemes₀)
    (depth : Nat) (rest : List Token) :
    moreFollows (depth + 1) (inner ++ rest) = moreFollows (depth + 1) rest := by
  induction hbalanced generalizing inner depth rest with
  | nil =>
      rw [map_eq_nil_iff.mp hinner]
      rfl
  | plain lexeme later hkind _ ih =>
      obtain ⟨token, others, rfl, htoken, hothers⟩ := map_eq_cons_iff.mp hinner
      subst htoken
      have hplain : token.kind.isBound = false := hkind
      rw [cons_append, moreFollows_cons, ih hothers] <;>
        · intro hbracket
          simp [hbracket, isBound] at hplain
  | parens inner later _ _ ihInner ihLater =>
      obtain ⟨first, middle, last, others, rfl, hfirst, hlast, hmiddle, hothers⟩ :=
        lexemes_eq_bracketed hinner
      have hopen : first.kind = .leftParen := hfirst
      have hclose : last.kind = .rightParen := hlast
      rw [cons_append, append_assoc, cons_append, moreFollows_leftParen hopen,
        ihInner hmiddle, moreFollows_rightParen hclose, if_neg (by omega), Nat.add_sub_cancel,
        ihLater hothers]
  | braces inner later _ _ ihInner ihLater =>
      obtain ⟨first, middle, last, others, rfl, hfirst, hlast, hmiddle, hothers⟩ :=
        lexemes_eq_bracketed hinner
      have hopen : first.kind = .leftBrace := hfirst
      have hclose : last.kind = .rightBrace := hlast
      rw [cons_append, append_assoc, moreFollows_cons (by simp [hopen]) (by simp [hopen])
        (by simp [hopen]),
        ihInner hmiddle, cons_append, moreFollows_cons (by simp [hclose]) (by simp [hclose])
          (by simp [hclose]), ihLater hothers]

theorem moreFollows_settled {first : Token} {rest} (hbalanced : Balanced lexemes₀)
    (hused : lexemes (first :: used) = lexemes₀) (hkind : first.kind = .leftParen)
    (hrest : rest ≠ []) (more : List Token) :
    moreFollows 0 (first :: used ++ rest ++ more) = moreFollows 0 (first :: used ++ rest) := by
  cases hbalanced with
  | nil => cases hused
  | plain lexeme later hplain _ =>
      obtain ⟨rfl, _⟩ := List.cons.inj hused
      have hbracket : first.kind.isBound = false := hplain
      simp [hkind, isBound] at hbracket
  | parens inner later hinner _ =>
      obtain ⟨_, middle, last, others, heq, _, hlast, hmiddle, _⟩ := lexemes_eq_bracketed hused
      obtain ⟨rfl, rfl⟩ := List.cons.inj heq
      have hclose : last.kind = .rightParen := hlast
      obtain ⟨next, hrest⟩ : ∃ next, (others ++ rest).head? = some next :=
        Option.isSome_iff_exists.mp (by simp [hrest])
      have hnext : (others ++ (rest ++ more)).head? = some next := by
        rw [← append_assoc, head?_append, hrest, Option.some_or]
      simp only [cons_append, append_assoc, moreFollows_leftParen hkind]
      rw [moreFollows_balanced hinner hmiddle, moreFollows_balanced hinner hmiddle,
        moreFollows_rightParen hclose, moreFollows_rightParen hclose, hrest, hnext]
      rfl
  | braces inner later _ _ =>
      have hbrace : first.kind = .leftBrace := congrArg Lexeme.kind (List.cons.inj hused).1
      simp [hkind] at hbrace

/-! ## Passing over an expression -/

theorem skipBrackets_open
    (h : token.kind = .leftParen ∨ token.kind = .leftBrace) (previous : Token) (level : Nat)
    (rest : List Token) :
    skipBrackets previous level (token :: rest) = skipBrackets token (level + 1) rest := by
  rcases h with h | h <;> rw [skipBrackets, h]

theorem skipBrackets_close
    (h : token.kind = .rightParen ∨ token.kind = .rightBrace) (previous : Token) (level : Nat)
    (rest : List Token) :
    skipBrackets previous level (token :: rest) =
      if level = 1 then (token, rest) else skipBrackets token (level - 1) rest := by
  rcases h with h | h <;> rw [skipBrackets, h]

theorem skipBrackets_plain (h : token.kind.isBound = false) (previous : Token)
    (level : Nat) (rest : List Token) :
    skipBrackets previous level (token :: rest) = skipBrackets token level rest := by
  rw [skipBrackets]
  split <;> simp_all [isBound]

theorem skipBrackets_balanced {lexemes₀} (hbalanced : Balanced lexemes₀)
    (hinner : lexemes inner = lexemes₀) (previous : Token) (level : Nat) (rest : List Token) :
    ∃ last, skipBrackets previous (level + 1) (inner ++ rest) =
      skipBrackets last (level + 1) rest := by
  -- A pair of brackets goes one level down and comes back.
  have hpair {first last : Token} {middle others : List Token}
      (hopen : first.kind = .leftParen ∨ first.kind = .leftBrace)
      (hclose : last.kind = .rightParen ∨ last.kind = .rightBrace) (previous : Token) (level : Nat)
      (hmiddle : ∀ previous level rest, ∃ last, skipBrackets previous (level + 1) (middle ++ rest) =
        skipBrackets last (level + 1) rest) :
      skipBrackets previous (level + 1) (first :: (middle ++ last :: others)) =
        skipBrackets last (level + 1) others := by
    obtain ⟨token, hskip⟩ := hmiddle first (level + 1) (last :: others)
    rw [skipBrackets_open hopen, hskip, skipBrackets_close hclose, if_neg (by omega)]
    rfl
  induction hbalanced generalizing inner previous level rest with
  | nil =>
      rw [map_eq_nil_iff.mp hinner]
      exact ⟨previous, rfl⟩
  | plain lexeme later hkind _ ih =>
      obtain ⟨token, others, rfl, htoken, hothers⟩ := map_eq_cons_iff.mp hinner
      subst htoken
      rw [cons_append, skipBrackets_plain hkind]
      exact ih hothers token level rest
  | parens inner later _ _ ihInner ihLater =>
      obtain ⟨first, middle, last, others, rfl, hfirst, hlast, hmiddle, hothers⟩ :=
        lexemes_eq_bracketed hinner
      rw [cons_append, append_assoc, cons_append,
        hpair (.inl hfirst) (.inl hlast) previous level (ihInner hmiddle)]
      exact ihLater hothers last level rest
  | braces inner later _ _ ihInner ihLater =>
      obtain ⟨first, middle, last, others, rfl, hfirst, hlast, hmiddle, hothers⟩ :=
        lexemes_eq_bracketed hinner
      rw [cons_append, append_assoc, cons_append,
        hpair (.inr hfirst) (.inr hlast) previous level (ihInner hmiddle)]
      exact ihLater hothers last level rest

theorem skipBrackets_of_spelled (hspell : SpellExpr expr (lexemes used))
    (hcompound : expr.isCompound = true) (previous : Token) (rest : List Token) :
    skipBrackets previous 0 (used ++ rest) = (used.getLastD previous, rest) := by
  have hskip {first last : Token} {middle : List Token} {inner : List Lexeme}
      (hopen : first.kind = .leftParen ∨ first.kind = .leftBrace)
      (hclose : last.kind = .rightParen ∨ last.kind = .rightBrace) (hbalanced : Balanced inner)
      (hmiddle : lexemes middle = inner) :
      skipBrackets previous 0 (first :: (middle ++ [last]) ++ rest) =
        ((first :: (middle ++ [last])).getLastD previous, rest) := by
    obtain ⟨token, hskip⟩ := skipBrackets_balanced hbalanced hmiddle first 0 (last :: rest)
    rw [cons_append, append_assoc, singleton_append, skipBrackets_open hopen,
      Nat.zero_add, hskip, skipBrackets_close hclose, if_pos rfl, getLastD_cons,
      getLastD_concat]
  obtain ⟨inner, hbalanced, hlexemes | hlexemes⟩ := hspell.bracketed.2 hcompound
  · rw [← append_nil (Lexeme.parens inner)] at hlexemes
    obtain ⟨first, middle, last, others, rfl, hfirst, hlast, hmiddle, hothers⟩ :=
      lexemes_eq_bracketed hlexemes
    rw [map_eq_nil_iff.mp hothers]
    exact hskip (.inl hfirst) (.inl hlast) hbalanced hmiddle
  · rw [← append_nil (Lexeme.braces inner)] at hlexemes
    obtain ⟨first, middle, last, others, rfl, hfirst, hlast, hmiddle, hothers⟩ :=
      lexemes_eq_bracketed hlexemes
    rw [map_eq_nil_iff.mp hothers]
    exact hskip (.inr hfirst) (.inr hlast) hbalanced hmiddle

end Parser

end ContractAudit
