import ContractAudit.Proofs.Parse.Clean.Forms
import ContractAudit.Proofs.Parse.Moved
import ContractAudit.Proofs.Parse.Takes
import ContractAudit.Proofs.Syntax.Print

/-!
# Phrases

Tokens are a phrase of a parser if it reads them, with nothing behind them, to the end and without
errors. A phrase is read in the same way wherever it stands: the token in front of it does not
matter, nodes are numbered from where the count is, and of what stands behind it only a dot that
touches its last name could be read too. Expressions, types and signatures have phrases.
-/

namespace ContractAudit

open Parse TokenKind

variable (nodes : Nat)

/-! ## Trees that are moved -/

namespace TypeSpec

variable (d : Displacement)

mutual

theorem erase_move : (type : TypeSpec) → (type.move d).erase = type.erase
  | .named span name params => by rw [move, erase, erase, eraseParams_move params]
  | .tuple span fields => by rw [move, erase, erase, eraseFields_move fields]

theorem eraseParams_move : (params : List TypeParam) →
    eraseParams (moveParams d params) = eraseParams params
  | [] => rfl
  | .size value :: rest => by rw [moveParams, eraseParams, eraseParams, eraseParams_move rest]
  | .type spec :: rest => by
      rw [moveParams, eraseParams, eraseParams, erase_move spec, eraseParams_move rest]

theorem eraseFields_move : (fields : List (String × TypeSpec)) →
    eraseFields (moveFields d fields) = eraseFields fields
  | [] => rfl
  | (name, spec) :: rest => by
      rw [moveFields, eraseFields, eraseFields, erase_move spec, eraseFields_move rest]

end

end TypeSpec

theorem Parameter.erase_move (d : Displacement) (param : Parameter) :
    (param.move d).erase = param.erase := by
  rw [erase, erase, move, TypeSpec.erase_move]

theorem Pattern.erase_move (d : Displacement) : (pattern : Pattern) →
    (pattern.move d).erase = pattern.erase
  | .wrapper info kind (some inner) => by rw [move, erase, erase, erase_move d inner]
  | .wrapper info kind .none => by rw [move, erase, erase]
  | .none info => rfl
  | .identifier info name => rfl
  | .literal info inner value => rfl

namespace Expr

variable (d : Displacement)

mutual

theorem erase_move : (expr : Expr) → (expr.move d).erase = expr.erase
  | .literal info value => by rw [move, erase, erase]
  | .identifier info name => by rw [move, erase, erase]
  | .call info callee args => by rw [move, erase, erase, eraseList_move args]
  | .letIn info bindings body => by
      rw [move, erase, erase, eraseNamed_move bindings, eraseList_move body]
  | .block info body => by rw [move, erase, erase, eraseList_move body]
  | .conditional info condition yes none => by
      rw [move, erase, erase, erase_move condition, erase_move yes]
  | .conditional info condition yes (some no) => by
      rw [move, erase, erase, erase_move condition, erase_move yes, erase_move no]
  | .matchOn info subject arms => by
      rw [move, erase, erase, erase_move subject, eraseArms_move arms]
  | .list info elements => by rw [move, erase, erase, eraseList_move elements]
  | .tuple info fields => by rw [move, erase, erase, eraseNamed_move fields]

theorem eraseList_move : (exprs : List Expr) → eraseList (moveList d exprs) = eraseList exprs
  | [] => by rw [moveList]
  | expr :: rest => by rw [moveList, eraseList, eraseList, erase_move expr, eraseList_move rest]

theorem eraseNamed_move : (entries : List (Named Expr)) →
    eraseNamed (moveNamed d entries) = eraseNamed entries
  | [] => by rw [moveNamed]
  | ⟨info, name, value⟩ :: rest => by
      rw [moveNamed, eraseNamed, eraseNamed, erase_move value, eraseNamed_move rest]

theorem eraseArms_move : (arms : List (Arm Expr)) → eraseArms (moveArms d arms) = eraseArms arms
  | [] => by rw [moveArms]
  | ⟨info, pattern, body⟩ :: rest => by
      rw [moveArms, eraseArms, eraseArms, Pattern.erase_move, eraseList_move body,
        eraseArms_move rest]

end

end Expr

def Displacement.later (nodes : Nat) : Displacement :=
  ⟨0, 0, nodes⟩

@[simp]
theorem Displacement.nodes_later : (later nodes).nodes = nodes := rfl

@[simp]
theorem Location.move_later (location : Location) : location.move (.later nodes) = location := by
  simp [Location.move, Displacement.later]

@[simp]
theorem Token.move_later (token : Token) : token.move (.later nodes) = token := by
  simp [Token.move]

@[simp]
theorem map_move_later (tokens : List Token) : tokens.map (Token.move (.later nodes)) = tokens :=
  (List.map_congr_left fun token _ => token.move_later nodes).trans (List.map_id tokens)

namespace Parser

variable {α β : Type} {s s₁ s' t : State} {make : NodeInfo → α} {parser : Parser α}
  {question : State → β} {gives' : β → Prop} {compound nested : Parser Expr} {levels : Nat}
  {follow' : List Token → Prop} {rest tokens : List Token}
  {closing last opening token first : Token} {move : Displacement → α → α} {next : α → Parser β}
  {value : α} {related : Relation α} {start : Location} {tree : Expr}

/-! ## The token in front -/

/-- A run without errors is the same behind any token. -/
def Fresh (parser : Parser α) : Prop :=
  ∀ ⦃s value s'⦄ (token : Token), s.ahead ≠ [] → parser s = .done value s' → s'.errors = [] →
    parser { s with previous := token } = .done value s'

theorem advance_bind_fresh (next : Token → Parser α) : Fresh (advance >>= next) := by
  intro s value s' token hne hrun _
  rw [advance_bind_run, State.advance_previous hne]
  exact hrun

theorem Dirty.fresh (h : Dirty parser) : Fresh parser :=
  fun _ _ _ _ _ hrun hclean => absurd hclean (h hrun)

theorem Fresh.bind {first} (hfirst : Fresh first) (hnext : ∀ value, Orderly (next value)) :
    Fresh (first >>= next) := by
  intro s value s' token hne hrun hclean
  obtain ⟨middle, s₁, hrun, hrest⟩ := bind_eq_done.mp hrun
  have hclean₁ := clean_of_onward ((hnext middle).done hrest) hclean
  exact bind_eq_done.mpr ⟨middle, s₁, hfirst token hne hrun hclean₁, hrest⟩

theorem ask_bind_fresh {question}
    (hsame : ∀ (s : State) token, question { s with previous := token } = question s)
    (hnext : ∀ answer, Fresh (next answer)) : Fresh (ask question >>= next) := by
  intro s value s' token hne hrun hclean
  rw [ask_bind_run, hsame]
  exact hnext (question s) token hne hrun hclean

theorem peek_bind_fresh {next : Token → Parser α} (hnext : ∀ token, Fresh (next token)) :
    Fresh (peek >>= next) :=
  ask_bind_fresh (fun _ _ => rfl) hnext

theorem fresh_ite {p : Prop} [Decidable p] {yes no : Parser α} (hyes : Fresh yes) (hno : Fresh no) :
    Fresh (if p then yes else no) := by
  split
  · exact hyes
  · exact hno

theorem expect_fresh (kind : TokenKind) (message : String) : Fresh (expect kind message) :=
  ask_bind_fresh (fun _ _ => rfl) fun _ => fresh_ite (advance_bind_fresh _)
    (reportHere_dirty fun _ => pure_behaves _).fresh

theorem nameExpr_fresh : Fresh nameExpr :=
  peek_bind_fresh fun _ => Fresh.bind (advance_bind_fresh _) fun _ =>
    node_orderly _ _

theorem literalExpr_fresh : Fresh literalExpr :=
  peek_bind_fresh fun _ => ask_bind_fresh (fun _ _ => rfl) fun _ => fresh_ite (advance_bind_fresh _)
    (fresh_ite (Fresh.bind (advance_bind_fresh _) fun _ => pure_behaves _) (advance_bind_fresh _))

theorem parenExprAfter_eq_done {before : State} {head : Token} {expr : Expr}
    (h : parenExprAfter nested before start head s = .done expr s') (before' : State) :
    parenExprAfter nested before' start head s = .done expr s' := by
  unfold parenExprAfter at h ⊢
  cases hkind : head.kind with
  | keyword =>
      simp only [hkind] at h ⊢
      split at h
      · simp [bind_eq_done, interrupt] at h
      · next hdefinition =>
          rw [if_neg hdefinition]
          exact h
  | _ =>
      simp only [hkind] at h ⊢
      exact h

theorem compoundExpr_fresh (nested : Parser Expr) : Fresh (compoundExpr nested) := by
  refine ask_bind_fresh (fun _ _ => rfl) fun answer => fresh_ite ?_ (advance_bind_fresh _)
  intro s expr s' token hne hrun hclean
  rw [parenExpr, ask_bind_run, advance_bind_run, peek_bind_run] at hrun ⊢
  rw [State.advance_previous hne]
  exact parenExprAfter_eq_done hrun _

theorem exprWith_fresh (h : Fresh compound) : Fresh (exprWith compound) := by
  refine peek_bind_fresh fun token => ?_
  cases token.kind with
  | leftParen | leftBrace => exact h
  | identifier | keyword => exact nameExpr_fresh
  | rightParen | endOfInput => exact (reportHere_dirty fun _ => missing_orderly _).fresh
  | _ => exact literalExpr_fresh

theorem exprWithin_fresh (levels : Nat) : Fresh (exprWithin levels) := by
  cases levels with
  | zero => exact exprWith_fresh skipNested_dirty.fresh
  | succ levels => exact exprWith_fresh (compoundExpr_fresh _)

theorem typeSpecWithin_fresh (levels : Nat) : Fresh (typeSpecWithin levels) := by
  cases levels with
  | zero => exact badType_dirty.fresh
  | succ levels =>
      refine peek_bind_fresh fun token => ?_
      cases token.kind with
      | identifier | keyword | leftBrace | leftParen => exact advance_bind_fresh _
      | _ => exact badType_dirty.fresh

/-! ## What stands behind -/

/-- Whether a dot and a word are joined to a name in front of them, because nothing stands
between. -/
def joins (last dot word : Token) : Bool :=
  dot.kind = .dot && dot.location.offset = last.location.offset + last.raw.length &&
    word.kind.isName && word.location.offset = dot.location.offset + 1

/-- A name at the end of some tokens is joined to none behind them. -/
def Apart (tokens rest : List Token) : Prop :=
  ∀ last ∈ tokens.getLast?, last.kind.isName = true →
    ∀ dot word more, rest = dot :: word :: more → joins last dot word = false

theorem apart_of_ne_dot (h : ∀ token ∈ rest.head?, token.kind ≠ .dot) : Apart tokens rest := by
  rintro last _ _ dot word more rfl
  simp [joins, h dot rfl]

theorem dottedTail_apart {name} (hname : last.kind.isName = true)
    (hall : (dottedTail last name tokens).2.2 = []) (hapart : Apart (last :: tokens) rest) :
    dottedTail last name (tokens ++ rest) =
      ((dottedTail last name tokens).1, (dottedTail last name tokens).2.1, rest) := by
  fun_induction dottedTail last name tokens with
  | case1 last name dot word others hjoined ih =>
      have hword : word.kind.isName = true := by
        simp only [Bool.and_eq_true] at hjoined
        exact hjoined.1.2
      rw [List.cons_append, List.cons_append, dottedTail, if_pos hjoined]
      refine ih hword hall fun token htoken => hapart token ?_
      rwa [List.getLast?_cons_cons, List.getLast?_cons_cons]
  | case2 last name dot word others hjoined => cases hall
  | case3 last name tokens hshort =>
      obtain rfl : tokens = [] := hall
      rcases rest with _ | ⟨dot, _ | ⟨word, more⟩⟩
      · rfl
      · rfl
      · have hjoins := hapart last rfl hname dot word more rfl
        rw [joins] at hjoins
        rw [List.nil_append, dottedTail, if_neg (by simp [hjoins])]

/-- A run on all tokens is the same before further ones that join no name. -/
def Ends (parser : Parser α) (apart : List Token → List Token → Prop) : Prop :=
  ∀ ⦃s value s'⦄ (t : State), Lexical s.ahead → parser s = .done value s' → s'.errors = [] →
    s'.ahead = [] → apart s.ahead t.ahead →
    parser (s.elsewhere t s.nextId []) = .done value (s'.elsewhere t s'.nextId [])

/-- What is followed with the same numbers is read in the same way. -/
theorem FollowsWhen.ends {given : State → Prop} {follower}
    (h : FollowsWhen True given (fun _ => True) related parser follower)
    (hsame : ∀ ⦃value used found errors⦄, related value used found errors → found = value ∧
      errors = []) (hruns : Runs given (fun _ => True) parser s value s') (t : State) :
    follower (s.elsewhere t s.nextId []) = .done value (s'.elsewhere t s'.nextId []) := by
  obtain ⟨_, found, id, errors, _, hrelated, hid, hrun⟩ := h.follow t s.nextId [] hruns fun _ => rfl
  obtain ⟨rfl, rfl⟩ := hsame hrelated
  rw [hrun, hid trivial]
  rfl

theorem Blind.ends {equal : α → α → Prop} (h : Blind True equal parser parser)
    (hsame : ∀ ⦃value found⦄, equal value found → found = value) (hrun : parser s = .done value s')
    (t : State) :
    parser (s.elsewhere t s.nextId []) = .done value (s'.elsewhere t s'.nextId []) := by
  obtain ⟨_, _, found, id, hequal, hid, hfound⟩ := h t s.nextId [] hrun fun _ => rfl
  rw [hfound, hsame hequal, hid trivial]

theorem dottedName_ends {name} (hname : s.current.kind.isName = true)
    (hrun : dottedName s = .done name s') (hend : s'.ahead = [])
    (hapart : Apart s.ahead t.ahead) :
    dottedName (s.elsewhere t s.nextId []) = .done name (s'.elsewhere t s'.nextId []) := by
  have hkind : s.current.kind ≠ .endOfInput := by
    intro h
    simp [h, isName] at hname
  obtain ⟨rest, hahead⟩ := State.ahead_of_current hkind
  have hne : s.ahead ≠ [] := by simp [hahead]
  have hadvance : s.advance.ahead = rest := State.ahead_advance hahead
  rw [dottedName_run] at hrun
  cases hrun
  have hall : (dottedTail s.current s.current.value s.advance.ahead).2.2 = [] := hend
  rw [hahead, ← hadvance] at hapart
  rw [dottedName_eq (State.elsewhere_current hne) (State.elsewhere_advance hne)
    (dottedTail_apart hname hall hapart) (List.suffix_append _ _)]
  simp [State.elsewhere, hall]

theorem Apart.tail {second : Token} (h : Apart (first :: second :: tokens) rest) :
    Apart (second :: tokens) rest := by
  intro last hlast
  exact h last (by rwa [List.getLast?_cons_cons])

theorem dottedNode_ends {next} {expr : Expr} (hname : s.current.kind.isName = true)
    (hnext : ∀ name, Blind True (fun value found => found = value) (next name) (next name))
    (hrun : (dottedName >>= next) s = .done expr s') (hend : s'.ahead = [])
    (hapart : Apart s.ahead t.ahead) : (dottedName >>= next) (s.elsewhere t s.nextId []) =
      .done expr (s'.elsewhere t s'.nextId []) := by
  obtain ⟨name, s₁, hdotted, hrest⟩ := bind_eq_done.mp hrun
  have hend₁ : s₁.ahead = [] := by rw [((hnext name).took hrest).ahead, hend, List.append_nil]
  exact bind_eq_done.mpr ⟨name, s₁.elsewhere t s₁.nextId [],
    dottedName_ends hname hdotted hend₁ hapart, (hnext name).ends (fun _ _ h => h) hrest t⟩

theorem nameExpr_ends {expr : Expr} (hname : s.current.kind.isName = true)
    (hrun : nameExpr s = .done expr s') (hend : s'.ahead = []) (hapart : Apart s.ahead t.ahead) :
    nameExpr (s.elsewhere t s.nextId []) = .done expr (s'.elsewhere t s'.nextId []) := by
  have hne : s.ahead ≠ [] := by
    intro hnil
    simp [State.kind_of_nil hnil, isName] at hname
  rw [nameExpr, peek_bind_run] at hrun ⊢
  rw [State.elsewhere_current hne]
  exact dottedNode_ends hname (fun _ => node_blind fun _ _ _ hid => by rw [hid trivial]) hrun hend
    hapart

theorem literalExpr_ends {expr : Expr} (hrun : literalExpr s = .done expr s')
    (hclean : s'.errors = []) (hend : s'.ahead = []) (hapart : Apart s.ahead t.ahead) :
    literalExpr (s.elsewhere t s.nextId []) = .done expr (s'.elsewhere t s'.nextId []) := by
  rw [literalExpr, peek_bind_run, ask_bind_run] at hrun ⊢
  split at hrun
  · next hlocal =>
      rw [Bool.and_eq_true, decide_eq_true_eq] at hlocal
      obtain ⟨hdot, hsecond⟩ := hlocal
      obtain ⟨dot, word, more, hahead⟩ : ∃ dot word more, s.ahead = dot :: word :: more := by
        rcases hahead : s.ahead with _ | ⟨dot, _ | ⟨word, more⟩⟩
        · simp [State.sees, State.kind_of_nil hahead] at hdot
        · simp [State.second_headD hahead, s.finish_kind] at hsecond
        · exact ⟨dot, word, more, rfl⟩
      have hne : s.ahead ≠ [] := by simp [hahead]
      have helsewhere : (s.elsewhere t s.nextId []).ahead = dot :: word :: (more ++ t.ahead) := by
        simp [State.elsewhere, hahead]
      have hsecond' : (s.elsewhere t s.nextId []).second = s.second := by
        rw [State.second_eq hahead, State.second_eq helsewhere]
      have hadvance : s.advance.ahead = word :: more := State.ahead_advance hahead
      rw [State.elsewhere_sees hne, hsecond', if_pos (by simp [hdot, hsecond]),
        State.elsewhere_current hne, advance_bind_run, State.elsewhere_advance hne,
        ← s.advance_nextId]
      refine dottedNode_ends ?_ (fun _ => node_blind fun _ _ _ hid => by
        rw [hid trivial]) hrun hend ?_
      · rw [State.current_eq hadvance, ← State.second_eq hahead, hsecond]
        rfl
      · rw [hahead] at hapart
        rw [hadvance]
        exact hapart.tail
  · split at hrun
    · next hliteral =>
        have hne : s.ahead ≠ [] := by
          intro hnil
          simp [State.kind_of_nil hnil, isLiteral] at hliteral
        have hdot : s.sees .dot = false := by
          rw [State.sees, decide_eq_false_iff_not]
          intro hdot
          simp [hdot, isLiteral] at hliteral
        rw [State.elsewhere_sees hne, hdot, Bool.false_and, if_neg Bool.false_ne_true,
          State.elsewhere_current hne, if_pos hliteral]
        obtain ⟨⟨info, value⟩, s₁, hread, hrest⟩ := bind_eq_done.mp hrun
        cases hrest
        obtain ⟨token, s₂, hadvance, hread⟩ := bind_eq_done.mp hread
        cases hadvance
        refine bind_eq_done.mpr ⟨(info, value), s'.elsewhere t s'.nextId [], bind_eq_done.mpr
          ⟨s.current, s.advance.elsewhere t s.advance.nextId [], ?_, ?_⟩, rfl⟩
        · rw [advance_run, State.elsewhere_current hne, State.elsewhere_advance hne,
            State.advance_nextId]
        · refine Blind.ends ?_ (fun value found (h : found = value) => h) hread t
          exact (literalValue_blind _).bind fun value found h => node_blind fun _ _ _ hid => by
            rw [hid trivial, h.1]
    · exact absurd hclean ((Dirty.after fun _ => report_dirty fun _ => missing_orderly _) hrun)

theorem exprWith_ends (h : ∀ token : Token, token.kind = .leftParen ∨ token.kind = .leftBrace →
      FollowsWhen True (·.current = token) (fun _ => True) (Like True levels) compound compound) :
    Ends (exprWith compound) Apart := by
  intro s expr s' t hlex hrun hclean hend hapart
  rw [exprWith, peek_bind_run] at hrun ⊢
  have hne : s.ahead ≠ [] := by
    intro hnil
    simp only [State.kind_of_nil hnil] at hrun
    exact reportHere_dirty (fun _ => missing_orderly _) hrun hclean
  rw [State.elsewhere_current hne]
  cases hkind : s.current.kind with
  | leftParen | leftBrace =>
      simp only [hkind] at hrun ⊢
      exact (h s.current (by simp [hkind])).ends (fun _ _ _ _ h => h.same trivial)
        ⟨rfl, hlex, hrun, hclean, trivial⟩ t
  | identifier | keyword =>
      simp only [hkind] at hrun ⊢
      exact nameExpr_ends (by rw [hkind]; rfl) hrun hend hapart
  | rightParen | endOfInput =>
      simp only [hkind] at hrun
      exact absurd hclean (reportHere_dirty (fun _ => missing_orderly _) hrun)
  | _ =>
      simp only [hkind] at hrun ⊢
      exact literalExpr_ends hrun hclean hend hapart

theorem exprWithin_ends (levels : Nat) : Ends (exprWithin levels) Apart := by
  cases levels with
  | zero =>
      exact exprWith_ends fun _ _ =>
        (skipNested_dirty.follows skipNested_orderly : FollowsWhen _ _ _ (Like True 0) _ _)
  | succ levels =>
      exact exprWith_ends fun token hkind => (compoundExpr_follows
        (exprWithin_follows levels levels fun _ => rfl) (exprWithin_orderly levels) hkind).imp
          fun _ _ _ _ h => h.respell fun hspell => hspell.2.2

theorem typeSpec_ends : Ends typeSpec fun _ _ => True := by
  intro s type s' t hlex hrun hclean hend _
  rw [typeSpec] at hrun ⊢
  have hlength : s.ahead.length ≤ (s.elsewhere t s.nextId []).ahead.length := by
    simp [State.elsewhere]
  cases hlevels : s.ahead.length with
  | zero =>
      rw [hlevels] at hrun
      exact absurd hclean (badType_dirty hrun)
  | succ levels =>
      obtain ⟨levels', hlevels'⟩ : ∃ n, (s.elsewhere t s.nextId []).ahead.length = n + 1 :=
        ⟨(s.elsewhere t s.nextId []).ahead.length - 1, by omega⟩
      have hne : s.ahead ≠ [] := by
        intro hnil
        simp [hnil] at hlevels
      have hnested : Follows True _ _ _ := typeSpecWithin_follows (show levels ≤ levels' by omega)
      rw [hlevels, typeSpecWithin, typeSpecWith, peek_bind_run] at hrun
      rw [hlevels', typeSpecWithin, typeSpecWith, peek_bind_run, State.elsewhere_current hne]
      cases hkind : s.current.kind with
      | identifier | keyword =>
          simp only [hkind, wordType, advance_bind_run] at hrun ⊢
          rw [State.elsewhere_advance hne, ← s.advance_nextId]
          exact Blind.ends (span_blind fun _ => rfl) (fun _ _ h => h.symm) hrun t
      | leftBrace =>
          simp only [hkind] at hrun ⊢
          exact (braceType_follows hnested).ends (fun _ _ _ _ h => ⟨h.1, h.2.1⟩)
            ⟨State.sees_iff.mpr hkind, hlex, hrun, hclean, trivial⟩ t
      | leftParen =>
          simp only [hkind] at hrun ⊢
          exact (parenType_follows hnested).ends (fun _ _ _ _ h => ⟨h.1, h.2.1⟩)
            ⟨State.sees_iff.mpr hkind, hlex, hrun, hclean, trivial⟩ t
      | _ =>
          simp only [hkind] at hrun
          exact absurd hclean (badType_dirty hrun)

/-! ## Signatures and bindings -/

def signature : Parser (String × List Parameter) := do
  let _ ← expect .leftParen "Expected '(' before function signature"
  let name ← expectName "function name"
  let params ← repeatWhile (·.sees .leftParen) parameter
  close "function signature"
  pure (name, params)

def functionRest (visibility : Visibility) (start : Location) (name : String)
    (params : List Parameter) : Parser FormResult := do
  let (exprs, cut) ← functionBody expr
  closeUnless cut s!"function '{name}'"
  pure ⟨some (.function ⟨← infoFrom start, name, visibility, params, exprs⟩), cut⟩

section

variable {name : String} {params : List Parameter} (h : signature s = .done (name, params) s₁)

include h

theorem signature_bind_run (next : String → List Parameter → Parser α) : (do
      let _ ← expect .leftParen "Expected '(' before function signature"
      let name ← expectName "function name"
      let params ← repeatWhile (·.sees .leftParen) parameter
      close "function signature"
      next name params) s = next name params s₁ := by
  obtain ⟨seen, s₂, hseen, h⟩ := bind_eq_done.mp h
  obtain ⟨name', s₃, hname, h⟩ := bind_eq_done.mp h
  obtain ⟨params', s₄, hparams, h⟩ := bind_eq_done.mp h
  obtain ⟨_, s₅, hclose, h⟩ := bind_eq_done.mp h
  cases h
  rw [bind_run_of_done hseen, bind_run_of_done hname, bind_run_of_done hparams,
    bind_run_of_done hclose]

theorem function_run {visibility} :
    function expr visibility start s = functionRest visibility start name params s₁ :=
  signature_bind_run h (functionRest visibility start)

end

theorem signature_fresh : Fresh signature :=
  (expect_fresh _ _).bind fun _ => .bind (expectName_behaves _) fun _ =>
    .bind (repeatWhile_behaves parameter_begins.behaves) fun _ =>
      .bind (close_behaves _) fun _ => pure_behaves _

theorem signature_follows : Whole True (Same fun _ _ => True) signature signature := by
  refine (expect_follows (c := '(') rfl _).bind_same fun _ => (expectName_follows _).bind_same
    fun _ => (repeatOpen_follows (lists_same .nil) parameter_follows).thenClose fun _ _ =>
      pure_blind ?_
  rintro _ _ ⟨rfl, rfl, _⟩ _ _ _ _
  exact ⟨rfl, rfl, trivial⟩

theorem signature_moves {d past beyond} :
    Moves d past beyond (Prod.map id (List.map (Parameter.move d))) signature signature :=
  .bind (expect_moves _ _) fun _ => .bind (expectName_moves _) fun _ =>
    .bind (repeatWhile_moves (fun s => s.sees_move _) parameter_moves) fun _ =>
      .bind (close_moves _) fun _ => pure_moves rfl

def letBindings (nested : Parser Expr) : Parser (List (Named Expr)) :=
  parenthesized "Expected '(' before let bindings" "let bindings"
    (repeatWhile (·.sees .leftParen) (letBinding nested))

/-! ## Phrases in their places -/

/-- A parser reads some tokens, and nothing else, to the end and without errors. -/
def Phrase (parser : Parser α) (tokens : List Token) (value : α) : Prop :=
  ∃ s, parser (.ofTokens tokens) = .done value s ∧ s.ahead = [] ∧ s.errors = []

/-- Runs of a parser on phrases are the same in every place, up to how values are moved. -/
structure Portable (parser : Parser α) (move : Displacement → α → α)
    (apart : List Token → List Token → Prop) : Prop where
  starts : ∀ ⦃s value s'⦄, Lexical s.ahead → parser s = .done value s' → s'.errors = [] →
    s.ahead ≠ []
  fresh : Fresh parser
  ends : Ends parser apart
  moves : ∀ d past beyond, Moves d past beyond (move d) parser parser

theorem Portable.takes {apart : List Token → List Token → Prop} (h : Portable parser move apart)
    (hphrase : Phrase parser tokens value) :
    Takes parser tokens (apart tokens) fun found => ∃ nodes, found = move (.later nodes) value := by
  intro s rest hscanned hahead hapart
  obtain ⟨s₁, hrun, hend, hclean⟩ := hphrase
  -- First the token in front is put in its place, then what follows, then what was counted before.
  have hlexical : Lexical (State.ofTokens tokens).ahead := by
    rw [ofTokens_of_scanned hscanned]
    exact hscanned.lexical
  have hfresh := h.fresh s.previous (h.starts hlexical hrun hclean) hrun hclean
  generalize hs₀ : ({ State.ofTokens tokens with previous := s.previous } : State) = s₀ at hfresh
  have hown : s₀.ahead = tokens := by
    rw [← hs₀]
    exact ofTokens_of_scanned hscanned
  generalize ht : s.readTo s.previous rest ⟨tokens, hahead.symm⟩ = t
  have hbehind : t.ahead = rest := by rw [← ht]
  have hends := h.ends t (by rw [hown]; exact hscanned.lexical) hfresh hclean hend
    (by rwa [hown, hbehind])
  have hmoves := h.moves (.later s.nextId) s.errors s.beyond (s₀.elsewhere t s₀.nextId [])
  have hplace : (s₀.elsewhere t s₀.nextId []).move (.later s.nextId) s.errors s.beyond = s := by
    have hprevious : s₀.previous = s.previous := by rw [← hs₀]
    have hcount : s₀.nextId = 0 := by rw [← hs₀]; rfl
    simp [← ht, State.move, State.elsewhere, hown, ← hahead, hprevious, hcount]
  rw [hplace, hends] at hmoves
  refine ⟨_, _, hmoves, ⟨s.nextId, rfl⟩, ?_, ?_⟩
  · simp [State.move, State.elsewhere, hend, hbehind]
  · simp [State.move, State.elsewhere]

theorem exprWithin_portable (levels : Nat) : Portable (exprWithin levels) Expr.move Apart where
  starts := by
    intro s expr s' _ hrun hclean hnil
    have hkind := State.kind_of_nil hnil
    cases levels <;>
    · rw [exprWithin, exprWith, peek_bind_run] at hrun
      simp only [hkind] at hrun
      exact reportHere_dirty (fun _ => missing_orderly _) hrun hclean
  fresh := exprWithin_fresh levels
  ends := exprWithin_ends levels
  moves := fun _ _ _ => exprWithin_moves levels

theorem typeSpec_portable : Portable typeSpec TypeSpec.move fun _ _ => True where
  starts := by
    intro s type s' _ hrun hclean hnil
    rw [typeSpec, hnil] at hrun
    exact badType_dirty hrun hclean
  fresh := fun s _ _ token hne hrun => typeSpecWithin_fresh s.ahead.length token hne hrun
  ends := typeSpec_ends
  moves := fun _ _ _ => typeSpec_moves

theorem portable_of_whole (hwhole : Whole True related parser parser)
    (hsame : ∀ ⦃value used found errors⦄, related value used found errors → found = value ∧
      errors = []) (hfresh : Fresh parser)
    (hmoves : ∀ d past beyond, Moves d past beyond (move d) parser parser) :
    Portable parser move fun _ _ => True where
  starts := fun _ _ _ hlex hrun hclean =>
    (hwhole.anchored ⟨trivial, hlex, hrun, hclean, trivial⟩).ne_nil
  fresh := hfresh
  ends := fun _ _ _ t hlex hrun hclean _ _ =>
    hwhole.ends hsame ⟨trivial, hlex, hrun, hclean, trivial⟩ t
  moves := hmoves

theorem signature_portable :
    Portable signature (fun d => Prod.map id (List.map (Parameter.move d))) fun _ _ => True :=
  portable_of_whole signature_follows (fun _ _ _ _ h => ⟨h.1, h.2.1⟩) signature_fresh
    fun _ _ _ => signature_moves

theorem letBindings_portable (levels : Nat) :
    Portable (letBindings (exprWithin levels)) (fun d => List.map (Named.move d)) fun _ _ => True :=
  portable_of_whole (parenthesized_follows _ _ (repeatOpen_follows
      (lists_matches .nil namedListCutTo_nil fun _ _ _ _ _ _ => NamedCutTo.cons)
      (letBinding_follows (exprWithin_follows levels levels fun _ => rfl))))
    (fun _ _ _ _ ⟨_, _, h⟩ => h.same trivial)
    ((expect_fresh _ _).bind fun _ => behaves_ite
      (.bind (repeatWhile_behaves (letBinding_begins (exprWithin_orderly levels)).behaves) fun _ =>
        .bind (close_behaves _) fun _ => pure_behaves _) (pure_behaves _))
    fun _ _ _ => parenthesized_moves _ _ (repeatWhile_moves (fun s => s.sees_move _)
      (letBinding_moves (exprWithin_moves levels)))

/-! ## Expressions in a row -/

/-- An expression starts with no closing parenthesis. -/
theorem Phrase.head (h : Phrase (exprWithin levels) tokens tree) (hscanned : Scanned tokens) :
    ∃ first rest, tokens = first :: rest ∧ first.kind ≠ .rightParen := by
  obtain ⟨s, hrun, _, hclean⟩ := h
  have hahead := ofTokens_of_scanned hscanned
  have hne := (exprWithin_portable levels).starts (hahead.symm ▸ hscanned.lexical) hrun hclean
  rw [hahead] at hne
  obtain ⟨first, rest, rfl⟩ := List.exists_cons_of_ne_nil hne
  refine ⟨first, rest, rfl, fun hkind => ?_⟩
  rw [← State.current_eq hahead] at hkind
  cases levels <;>
  · rw [exprWithin, exprWith, peek_bind_run] at hrun
    simp only [hkind] at hrun
    exact reportHere_dirty (fun _ => missing_orderly _) hrun hclean

/-- The tokens of some expressions in a row. -/
inductive Exprs (levels : Nat) : List Token → List Expr → Prop where
  | nil : Exprs levels [] []
  | cons {tokens rest : List Token} {tree : Expr} {trees : List Expr} :
      Phrase (exprWithin levels) tokens tree → Apart tokens rest → Exprs levels rest trees →
      Exprs levels (tokens ++ rest) (tree :: trees)

theorem Apart.append {more} (h : Apart tokens rest)
    (hmore : ∀ token ∈ more.head?, token.kind = .leftParen ∨ token.kind = .rightParen) :
    Apart tokens (rest ++ more) := by
  have hbracket : ∀ token ∈ more.head?, token.kind ≠ .dot ∧ token.kind.isName = false := by
    intro token htoken
    rcases hmore token htoken with hkind | hkind <;> simp [hkind, isName]
  intro last hlast hname dot word others heq
  rcases rest with _ | ⟨first, _ | ⟨second, rest⟩⟩
  · have hdot := (hbracket dot (by simp_all)).1
    simp [joins, hdot]
  · have hword := (hbracket word (by simp_all)).2
    simp [joins, hword]
  · simp only [List.cons_append, List.cons.injEq] at heq
    rw [← heq.1, ← heq.2.1]
    exact h last hlast hname first second rest rfl

theorem Phrase.takes_expr (h : Phrase (exprWithin levels) tokens tree) :
    Takes (exprWithin levels) tokens (Apart tokens) fun expr => expr.erase = tree.erase := by
  refine ((exprWithin_portable levels).takes h).imp ?_
  rintro _ ⟨nodes, rfl⟩
  exact tree.erase_move _

theorem Exprs.length_le {args trees}
    (h : Exprs levels args trees) (hscanned : Scanned args) : trees.length ≤ args.length := by
  induction h with
  | nil => exact Nat.le_refl 0
  | cons hphrase _ _ ih =>
      rw [scanned_append] at hscanned
      obtain ⟨first, others, rfl, _⟩ := hphrase.head hscanned.1
      have hrest := ih hscanned.2
      rw [List.length_append, List.length_cons, List.length_cons]
      omega

/-! ## Forms in parentheses -/

theorem exprWithin_paren {head : Token}
    (hahead : s.ahead = opening :: head :: rest) (hopen : opening.kind = .leftParen) :
    exprWithin (levels + 1) s =
      parenExprAfter (exprWithin levels) s opening.location head s.advance := by
  have hcurrent := State.current_eq hahead
  have hhead : s.advance.current = head := State.current_eq (State.ahead_advance hahead)
  have hsees : s.sees .leftParen = true := State.sees_iff.mpr (by rw [hcurrent, hopen])
  rw [exprWithin, exprWith, peek_bind_run, hcurrent]
  simp only [hopen]
  rw [compoundExpr, ask_bind_run, if_pos hsees, parenExpr, ask_bind_run, advance_bind_run,
    peek_bind_run, hcurrent, hhead]
  rfl

theorem parenExprAfter_special {head : Token} {form} (hkind : head.kind = .keyword)
    (hform : specialForm? head.value = some form) (before : State) (start : Location) :
    parenExprAfter nested before start head = (advance >>= fun _ => form nested start) := by
  have hnot : Vocabulary.definitions.contains head.value = false := by
    unfold specialForm? at hform
    split at hform <;> first | (rename_i heq; rw [heq]; decide) | cases hform
  unfold parenExprAfter
  simp only [hkind, hnot, hform, Bool.false_eq_true, if_false]

theorem Takes.special {head : Token} {form}
    {follow : List Token → Prop} {gives : Expr → Prop} (hopen : opening.kind = .leftParen)
    (hkind : head.kind = .keyword) (hform : specialForm? head.value = some form)
    (h : Takes (form (exprWithin levels) opening.location) tokens follow gives) :
    Takes (exprWithin (levels + 1)) (opening :: head :: tokens) follow gives := by
  intro s rest hscanned hahead hfollow
  have hadvance : s.advance.ahead = head :: tokens ++ rest := State.ahead_advance hahead
  have hafter : Takes (advance >>= fun _ => form (exprWithin levels) opening.location)
      (head :: tokens) follow gives := advance_bind_takes h
  rw [exprWithin_paren hahead hopen, parenExprAfter_special hkind hform, ← s.advance_errors]
  exact hafter (fun token htoken => hscanned token (List.mem_cons_of_mem _ htoken)) hadvance hfollow

theorem form_run {head : Token} {after}
    (hahead : s.ahead = first :: head :: rest) (hopen : first.kind = .leftParen)
    (hkind : head.kind = .keyword) (hafter : formAfter? expr head.value = some after) :
    form expr s = after first.location s.advance.advance := by
  have hhead : s.advance.current = head := State.current_eq (State.ahead_advance hahead)
  have hat : formAt? expr head = some after := formAt?_eq_some.mpr ⟨hkind, hafter⟩
  rw [form, advance_bind_run, State.current_eq hahead, if_neg (not_not.mpr hopen), peek_bind_run,
    hhead, hat]
  rfl

/-! ## Texts -/

theorem ofTokens_tokenize {source} (h : tokenize source = tokens ++ [last]) :
    Scanned tokens ∧ ∃ hlive hlast, State.ofTokens (tokenize source) =
      ⟨tokens.headD last, tokens, hlive, last, hlast, [], 0, []⟩ := by
  have hinit : (tokenize source).dropLast = tokens := by rw [h, List.dropLast_concat]
  have hscanned : Scanned tokens := hinit ▸ fun token htoken => tokenize_lexical htoken
  have hlast : last.kind = .endOfInput := by
    have heq := tokenize_eq source
    rw [hinit, h] at heq
    rw [List.singleton_inj.mp (List.append_cancel_left heq)]
  exact ⟨hscanned, _, hlast,
    h ▸ ofTokens_concat (fun token htoken => (hscanned token htoken).2) hlast⟩

end Parser

def onLine (kind : TokenKind) (offset : Nat) (raw : String) : Token :=
  ⟨kind, raw, raw, ⟨1, offset + 1, offset⟩⟩

theorem phrase_onLine (levels offset : Nat) (text : String) :
    ∃ tree, Parser.Phrase (Parser.exprWithin levels) [onLine .identifier offset text] tree ∧
      tree.erase = .identifier .nowhere text := by
  cases levels <;> exact ⟨_, ⟨_, rfl, rfl, rfl⟩, rfl⟩

theorem exprs_onLine (levels offset : Nat) (text : String) :
    ∃ tree, Parser.Exprs levels [onLine .identifier offset text] [tree] ∧
      tree.erase = .identifier .nowhere text := by
  obtain ⟨tree, hphrase, htree⟩ := phrase_onLine levels offset text
  exact ⟨tree, .cons hphrase (by simp [Parser.Apart]) .nil, htree⟩

end ContractAudit
