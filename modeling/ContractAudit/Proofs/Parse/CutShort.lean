import ContractAudit.Proofs.Parse.Append
import ContractAudit.Proofs.Parse.Phrase

/-!
# Definitions that are cut short

Where closing parentheses are missing, the next definition starts inside an expression. It
interrupts the parse of every form around it (`Cut`), frame by frame, up to the definition that is
cut short: a function keeps the expressions that were complete, a constant or a data variable is
dropped. The parse goes on at the definition that interrupts, as if nothing had happened, so that
only the unfinished expression is lost and one error tells where.
-/

namespace ContractAudit

open Parse List State

namespace Parser

variable {frames : List (List Token)} {found : List (Option Form)}
  {rest tokens inner more : List Token} {bound levels : Nat} {nested : Parser Expr}
  {head opening keyword : Token} {α β : Type} {s s₁ s' : State} {next : α → Parser β}
  {first : Parser α}

theorem bind_run_of_interrupted (h : first s = .interrupted s₁) :
    (first >>= next) s = .interrupted s₁ := by
  show Parser.bind first next s = _
  rw [Parser.bind, h]

/-! ## Interruptions -/

def interruption (keyword : Token) : Diagnostic :=
  .error .parse .unterminatedForm
    (s!"'{keyword.value}' cannot appear inside an expression; " ++ "is a closing ')' missing?")
    keyword.location

theorem startsDefinition_iff :
    startsDefinition (opening :: keyword :: more) = true ↔ opening.kind = .leftParen ∧
      keyword.kind = .keyword ∧ Vocabulary.definitions.contains keyword.value = true := by
  simp [startsDefinition, and_assoc]

/-- Where a definition stands right behind some tokens, a parser reads these and is interrupted in
front of the definition, with an error about it. -/
def Cut (parser : Parser α) (tokens : List Token) : Prop :=
  ∀ ⦃s : State⦄ ⦃opening keyword : Token⦄ ⦃more : List Token⦄, Scanned tokens →
    s.ahead = tokens ++ opening :: keyword :: more →
    startsDefinition (opening :: keyword :: more) = true →
    ∃ s', parser s = .interrupted s' ∧ s'.ahead = opening :: keyword :: more ∧
      s'.errors = s.errors ++ [interruption keyword]

theorem Cut.bind (h : Cut first tokens) : Cut (first >>= next) tokens := by
  intro s opening keyword more hscanned hahead hdefinition
  obtain ⟨s', hrun, hrest⟩ := h hscanned hahead hdefinition
  exact ⟨s', bind_run_of_interrupted hrun, hrest⟩

/-- Tokens that start with an opening parenthesis, if there are any. -/
def Opened (tokens : List Token) : Prop :=
  ∀ token ∈ tokens.head?, token.kind = .leftParen

theorem Opened.append (h : Opened inner) (hdefinition : startsDefinition (opening :: more) = true) :
    Opened (inner ++ opening :: more) := by
  cases inner with
  | nil =>
      intro token htoken
      cases htoken
      cases more with
      | nil => cases hdefinition
      | cons keyword more => exact (startsDefinition_iff.mp hdefinition).1
  | cons first rest => exact h

theorem Opened.apart (h : Opened inner) (hapart : Apart tokens more) :
    Apart tokens (more ++ inner) :=
  hapart.append fun token htoken => .inl (h token htoken)

theorem Takes.cut {follow : List Token → Prop} {gives : α → Prop}
    (hfirst : Takes first tokens follow gives) (hnext : ∀ value, Cut (next value) inner)
    (hfollow : ∀ ⦃opening keyword more⦄, startsDefinition (opening :: keyword :: more) = true →
      follow (inner ++ opening :: keyword :: more)) : Cut (first >>= next) (tokens ++ inner) := by
  intro s opening keyword more hscanned hahead hdefinition
  rw [scanned_append] at hscanned
  rw [append_assoc] at hahead
  obtain ⟨value, s₁, hrun, _, hahead₁, herrors₁⟩ :=
    hfirst hscanned.1 hahead (hfollow hdefinition)
  obtain ⟨s', hcut, hrest, herrors⟩ := hnext value hscanned.2 hahead₁ hdefinition
  exact ⟨s', (bind_run_of_done hrun).trans hcut, hrest, herrors.trans (by rw [herrors₁])⟩

theorem ask_cut {condition} {yes no : Parser α}
    (hcondition : ∀ ⦃s : State⦄ ⦃opening keyword more⦄, Scanned tokens →
      s.ahead = tokens ++ opening :: keyword :: more →
      startsDefinition (opening :: keyword :: more) = true → condition s = true)
    (hyes : Cut yes tokens) :
    Cut (ask condition >>= fun answer => if answer then yes else no) tokens := by
  intro s opening keyword more hscanned hahead hdefinition
  rw [ask_bind_run, if_pos (hcondition hscanned hahead hdefinition)]
  exact hyes hscanned hahead hdefinition

theorem inBody_of_opened (h : Opened rest) (hne : rest ≠ [])
    (hahead : s.ahead = rest) : s.inBody = true := by
  obtain ⟨first, others, rfl⟩ := exists_cons_of_ne_nil hne
  exact inBody_iff.mpr ⟨first, others, hahead, by simp [h first rfl]⟩

/-! ## Expressions in front of what is cut -/

theorem Phrase.cut {tree : Expr} {next : Expr → Parser α}
    (hphrase : Phrase (exprWithin levels) tokens tree) (hapart : Apart tokens rest)
    (hopened : Opened inner) (hnext : ∀ expr, Cut (next expr) (rest ++ inner)) :
    Cut (exprWithin levels >>= next) (tokens ++ rest ++ inner) := by
  rw [append_assoc]
  refine hphrase.takes_expr.cut hnext fun opening keyword more h => ?_
  rw [append_assoc]
  exact (hopened.append h).apart hapart

section Body

variable {args : List Token} {trees : List Expr} (hargs : Exprs levels args trees)
  (hinner : Cut (exprWithin levels) inner) (hopened : Opened inner)

include hargs hinner hopened

theorem repeatUpTo_cut (hbound : trees.length < bound) :
    Cut (repeatUpTo inBody (exprWithin levels) bound) (args ++ inner) := by
  induction hargs generalizing bound with
  | nil =>
      obtain ⟨bound, rfl⟩ : ∃ n, bound = n + 1 := ⟨bound - 1, by omega⟩
      refine ask_cut (fun s opening keyword more _ hahead hdefinition => ?_) hinner.bind
      exact inBody_of_opened (hopened.append hdefinition) (by simp) hahead
  | cons hphrase hapart _ ih =>
      rw [length_cons] at hbound
      obtain ⟨bound, rfl⟩ : ∃ n, bound = n + 1 := ⟨bound - 1, by omega⟩
      refine ask_cut (fun s opening keyword more hscanned hahead _ => ?_)
        (hphrase.cut hapart hopened fun _ => (ih (by omega)).bind)
      rw [append_assoc] at hscanned hahead
      obtain ⟨first, others, rfl, hkind⟩ := hphrase.head (scanned_append.mp hscanned).1
      exact inBody_iff.mpr ⟨first, _, hahead, hkind⟩

theorem body_cut : Cut (body (exprWithin levels)) (args ++ inner) := by
  intro s opening keyword more hscanned hahead
  have hlength := hargs.length_le (scanned_append.mp hscanned).1
  refine repeatUpTo_cut hargs hinner hopened ?_ hscanned hahead
  rw [hahead]
  simp only [length_append, length_cons]
  omega

theorem conditionalExpr_cut (hcount : trees.length ≤ 2) (start : Location) :
    Cut (conditionalExpr (exprWithin levels) start) (args ++ inner) := by
  cases hargs with
  | nil => exact hinner.bind
  | cons hphrase hapart hrest =>
      refine hphrase.cut hapart hopened fun _ => ?_
      cases hrest with
      | nil => exact hinner.bind
      | cons hsecond hapartSecond hthird =>
          refine hsecond.cut hapartSecond hopened fun _ => ?_
          cases hthird with
          | nil =>
              refine Cut.bind (ask_cut (fun s opening keyword more _ hahead hdefinition => ?_)
                hinner.bind)
              exact inBody_of_opened (hopened.append hdefinition) (by simp) hahead
          | cons => simp at hcount

theorem letExpr_cut {bindings found}
    (hbindings : Phrase (letBindings (exprWithin levels)) bindings found) (start : Location) :
    Cut (letExpr (exprWithin levels) start) (bindings ++ (args ++ inner)) :=
  ((letBindings_portable levels).takes hbindings).cut
    (fun _ => (body_cut hargs hinner hopened).bind) fun _ _ _ _ => trivial

end Body

/-! ## Frames -/

/-- Whether a name in front of arguments is the name of what is called: it is no keyword that opens
a definition or a form of its own. -/
def opensCall (head : Token) : Bool :=
  head.kind = .identifier || (head.kind = .keyword &&
    !Vocabulary.definitions.contains head.value && (specialForm? head.value).isNone)

/-- A form in parentheses up to a place where an expression may start: its parenthesis is open, and
the expressions in it, if there are any, are complete. -/
inductive Frame (levels : Nat) : List Token → Prop where
  | call {opening head : Token} {words args : List Token} {trees : List Expr} :
      opening.kind = .leftParen → opensCall head = true →
      (dottedTail head head.value words).2.2 = [] → Apart (head :: words) args →
      Exprs levels args trees → Frame levels (opening :: head :: (words ++ args))
  | sequence {opening head : Token} {args : List Token} {trees : List Expr} :
      opening.kind = .leftParen → head.kind = .keyword →
      head.value = "begin" ∨ head.value = "list" → Exprs levels args trees →
      Frame levels (opening :: head :: args)
  | conditional {opening head : Token} {args : List Token} {trees : List Expr} :
      opening.kind = .leftParen → head.kind = .keyword → head.value = "if" →
      Exprs levels args trees → trees.length ≤ 2 → Frame levels (opening :: head :: args)
  | letIn {opening head : Token} {bindings args : List Token} {found : List (Named Expr)}
      {trees : List Expr} :
      opening.kind = .leftParen → head.kind = .keyword → head.value = "let" →
      Phrase (letBindings (exprWithin levels)) bindings found → Exprs levels args trees →
      Frame levels (opening :: head :: (bindings ++ args))

theorem Frame.opened (h : Frame levels tokens) (rest : List Token) : Opened (tokens ++ rest) := by
  intro token htoken
  cases h with
  | call hopen | sequence hopen | conditional hopen | letIn hopen =>
      cases htoken
      exact hopen

theorem parenExprAfter_call (h : opensCall head = true) (before : State) (start : Location) :
    parenExprAfter nested before start head = callExpr nested start := by
  rw [opensCall, Bool.or_eq_true, Bool.and_eq_true, Bool.and_eq_true, decide_eq_true_eq,
    decide_eq_true_eq, Bool.not_eq_true', Option.isNone_iff_eq_none] at h
  unfold parenExprAfter
  rcases h with hkind | ⟨⟨hkind, hnot⟩, hform⟩
  · simp only [hkind]
  · simp only [hkind, hnot, hform, Bool.false_eq_true, if_false]

theorem Cut.call (hopen : opening.kind = .leftParen) (hcallee : opensCall head = true)
    (h : ∀ start, Cut (callExpr (exprWithin levels) start) (head :: inner)) :
    Cut (exprWithin (levels + 1)) (opening :: head :: inner) := by
  intro s definition keyword more hscanned hahead hdefinition
  have hadvance : s.advance.ahead = head :: inner ++ definition :: keyword :: more :=
    ahead_advance hahead
  obtain ⟨s', hrun, hrest, herrors⟩ := h opening.location
    (fun token htoken => hscanned token (mem_cons_of_mem _ htoken)) hadvance hdefinition
  rw [exprWithin_paren hahead hopen, parenExprAfter_call hcallee]
  exact ⟨s', hrun, hrest, by rw [herrors, advance_errors]⟩

theorem Cut.special {form} (hopen : opening.kind = .leftParen) (hkind : head.kind = .keyword)
    (hform : specialForm? head.value = some form)
    (h : ∀ start, Cut (form (exprWithin levels) start) inner) :
    Cut (exprWithin (levels + 1)) (opening :: head :: inner) := by
  intro s definition keyword more hscanned hahead hdefinition
  have hadvance : s.advance.ahead = head :: (inner ++ definition :: keyword :: more) :=
    ahead_advance hahead
  have hadvance₂ : s.advance.advance.ahead = inner ++ definition :: keyword :: more :=
    ahead_advance hadvance
  obtain ⟨s', hrun, hrest, herrors⟩ := h opening.location
    (fun token htoken => hscanned token (by simp [htoken])) hadvance₂ hdefinition
  rw [exprWithin_paren hahead hopen, parenExprAfter_special hkind hform, advance_bind_run]
  exact ⟨s', hrun, hrest, by rw [herrors, advance_errors, advance_errors]⟩

theorem callee_takes {words}
    (hcallee : opensCall head = true) (hwords : (dottedTail head head.value words).2.2 = []) :
    Takes (callee nested) (head :: words) (Apart (head :: words)) fun _ => True := by
  intro s rest _ hahead hapart
  have hname : head.kind.isName = true := by
    rw [opensCall, Bool.or_eq_true, Bool.and_eq_true, Bool.and_eq_true, decide_eq_true_eq,
      decide_eq_true_eq] at hcallee
    rcases hcallee with hkind | ⟨⟨hkind, _⟩, _⟩ <;> simp [hkind, TokenKind.isName]
  have hcurrent := current_eq hahead
  have hadvance : s.advance.ahead = words ++ rest := ahead_advance hahead
  obtain ⟨last, name, htail⟩ : ∃ last name,
      dottedTail head head.value s.advance.ahead = (last, name, rest) :=
    ⟨_, _, by rw [hadvance, dottedTail_apart hname hwords hapart]⟩
  rw [callee, peek_bind_run, hcurrent, if_pos hname,
    dottedName_eq hcurrent rfl htail ⟨words, hadvance.symm⟩]
  exact ⟨_, _, rfl, trivial, rfl, s.advance_errors⟩

theorem Frame.cut (h : Frame levels tokens) (hinner : Cut (exprWithin levels) inner)
    (hopened : Opened inner) : Cut (exprWithin (levels + 1)) (tokens ++ inner) := by
  cases h with
  | @call opening head words args trees hopen hcallee hwords hapart hargs =>
      rw [cons_append, cons_append, append_assoc]
      refine .call hopen hcallee fun start => ?_
      refine (callee_takes hcallee hwords).cut (fun _ => (body_cut hargs hinner hopened).bind)
        fun opening keyword more hdefinition => ?_
      rw [append_assoc]
      exact (hopened.append hdefinition).apart hapart
  | sequence hopen hkind hvalue hargs =>
      rcases hvalue with hvalue | hvalue
      · exact .special hopen hkind (by rw [hvalue]; rfl) fun _ =>
          Cut.bind (body_cut hargs hinner hopened)
      · exact .special hopen hkind (by rw [hvalue]; rfl) fun _ =>
          Cut.bind (body_cut hargs hinner hopened)
  | conditional hopen hkind hvalue hargs hcount =>
      exact .special hopen hkind (by rw [hvalue]; rfl)
        (conditionalExpr_cut hargs hinner hopened hcount)
  | letIn hopen hkind hvalue hbindings hargs =>
      rw [cons_append, cons_append, append_assoc]
      exact .special hopen hkind (by rw [hvalue]; rfl) (letExpr_cut hargs hinner hopened hbindings)

/-- Frames one inside another, each read with one level less than the one around it. -/
def Frames : Nat → List (List Token) → Prop
  | _, [] => True
  | 0, _ :: _ => False
  | levels + 1, frame :: frames => Frame levels frame ∧ Frames levels frames

theorem Frames.opened (h : Frames levels frames) : Opened frames.flatten := by
  cases frames with
  | nil => simp [Opened]
  | cons frame frames =>
      cases levels with
      | zero => exact h.elim
      | succ levels => exact h.1.opened _

/-- A definition where an expression should start interrupts it. -/
theorem exprWithin_cut : Cut (exprWithin (levels + 1)) [] := by
  intro s opening keyword more _ hahead hdefinition
  obtain ⟨hopen, hkind, hcontains⟩ := startsDefinition_iff.mp hdefinition
  rw [exprWithin_paren hahead hopen]
  unfold parenExprAfter
  simp only [hkind, hcontains, if_true]
  refine ⟨_, rfl, hahead, ?_⟩
  show s.advance.errors ++ _ = _
  rw [advance_errors]
  rfl

/-- However many frames are open, an expression is interrupted by the definition behind them. -/
theorem Frames.cut (h : Frames levels frames)
    (hcount : frames.length < levels) : Cut (exprWithin levels) frames.flatten := by
  induction frames generalizing levels with
  | nil =>
      obtain ⟨levels, rfl⟩ : ∃ n, levels = n + 1 := ⟨levels - 1, by omega⟩
      exact exprWithin_cut
  | cons frame frames ih =>
      rw [length_cons] at hcount
      obtain ⟨levels, rfl⟩ : ∃ n, levels = n + 1 := ⟨levels - 1, by omega⟩
      exact h.1.cut (ih h.2 (by omega)) h.2.opened

/-! ## Definitions -/

/-- The body of a function keeps the expressions in front of what is cut. -/
theorem functionBodyUpTo_cut {args trees}
    (hargs : Exprs maxNesting args trees) (hinner : Cut expr inner) (hopened : Opened inner)
    (hbound : trees.length < bound) (hscanned : Scanned (args ++ inner))
    (hahead : s.ahead = args ++ inner ++ opening :: keyword :: more)
    (hdefinition : startsDefinition (opening :: keyword :: more) = true) :
    ∃ exprs s', functionBodyUpTo expr bound s = .done (exprs, true) s' ∧
      exprs.map Expr.erase = trees.map Expr.erase ∧ s'.ahead = opening :: keyword :: more ∧
      s'.errors = s.errors ++ [interruption keyword] := by
  induction hargs generalizing s bound with
  | nil =>
      obtain ⟨bound, rfl⟩ : ∃ n, bound = n + 1 := ⟨bound - 1, by omega⟩
      have hbody := inBody_of_opened (hopened.append hdefinition) (by simp) hahead
      obtain ⟨s', hrun, hrest, herrors⟩ := hinner hscanned hahead hdefinition
      have hnone : unlessInterrupted expr s = .done none s' := by rw [unlessInterrupted, hrun]
      refine ⟨[], s', ?_, rfl, hrest, herrors⟩
      rw [functionBodyUpTo, ask_bind_run, if_pos hbody, bind_run_of_done hnone]
      rfl
  | cons hphrase hapart _ ih =>
      rw [length_cons] at hbound
      obtain ⟨bound, rfl⟩ : ∃ n, bound = n + 1 := ⟨bound - 1, by omega⟩
      rw [append_assoc, append_assoc] at hahead
      rw [append_assoc, scanned_append] at hscanned
      have hbody : s.inBody = true := by
        obtain ⟨first, others, rfl, hkind⟩ := hphrase.head hscanned.1
        exact inBody_iff.mpr ⟨first, _, hahead, hkind⟩
      obtain ⟨first, s₁, hrun, hfirst, hahead₁, herrors₁⟩ := hphrase.takes_expr hscanned.1 hahead
        ((hopened.append hdefinition).apart hapart)
      have hsome : unlessInterrupted expr s = .done (some first) s₁ := by
        rw [unlessInterrupted, show expr s = _ from hrun]
      rw [← append_assoc] at hahead₁
      obtain ⟨exprs, s', hexprs, hsame, hrest, herrors⟩ :=
        ih (show _ < bound by omega) hscanned.2 hahead₁
      refine ⟨first :: exprs, s', ?_, by simp [hfirst, hsame], hrest, by rw [herrors, herrors₁]⟩
      rw [functionBodyUpTo, ask_bind_run, if_pos hbody, bind_run_of_done hsome]
      exact bind_run_of_done hexprs

theorem whole_cut {parser} (h : Cut parser tokens) (hscanned : Scanned tokens)
    (hahead : s.ahead = tokens ++ opening :: keyword :: more)
    (hdefinition : startsDefinition (opening :: keyword :: more) = true) :
    ∃ s', whole parser s = .done ⟨none, true⟩ s' ∧ s'.ahead = opening :: keyword :: more ∧
      s'.errors = s.errors ++ [interruption keyword] := by
  obtain ⟨s', hrun, hrest, herrors⟩ := h hscanned hahead hdefinition
  have hnone : unlessInterrupted parser s = .done none s' := by rw [unlessInterrupted, hrun]
  exact ⟨s', bind_run_of_done hnone, hrest, herrors⟩

/-- The tokens of a definition up to a place where an expression may start, with what is kept of the
definition if it goes no further: a function with the expressions in its body, and nothing of a
constant or a data variable. -/
inductive Beginning : List Token → List Form → Prop where
  | function {first head : Token} {heading args : List Token} {visibility : Visibility}
      {name : String} {params : List Parameter} {trees : List Expr} (info : NodeInfo) :
      first.kind = .leftParen → head.kind = .keyword → head.value = visibility.keyword →
      Phrase signature heading (name, params) → Exprs maxNesting args trees →
      Beginning (first :: head :: (heading ++ args))
        [.function ⟨info, name, visibility, params, trees⟩]
  | constant {first head name : Token} :
      first.kind = .leftParen → head.kind = .keyword → head.value = "define-constant" →
      name.kind.isName = true → Beginning [first, head, name] []
  | dataVar {first head name : Token} {type : List Token} {spec : TypeSpec} :
      first.kind = .leftParen → head.kind = .keyword → head.value = "define-data-var" →
      name.kind.isName = true → Phrase typeSpec type spec →
      Beginning (first :: head :: name :: type) []

theorem form_cut {kept} (h : Beginning tokens kept) (hinner : Cut expr inner)
    (hopened : Opened inner) (hscanned : Scanned (tokens ++ inner))
    (hahead : s.ahead = tokens ++ inner ++ opening :: keyword :: more)
    (hdefinition : startsDefinition (opening :: keyword :: more) = true) :
    ∃ result s', form expr s = .done result s' ∧ result.cut = true ∧
      result.form.toList.map Form.erase = kept.map Form.erase ∧
      s'.ahead = opening :: keyword :: more ∧ s'.errors = s.errors ++ [interruption keyword] := by
  -- Behind the parenthesis and the keyword.
  have hskip {first head : Token} {others : List Token} (heq : tokens = first :: head :: others) :
      s.advance.advance.ahead = others ++ inner ++ opening :: keyword :: more ∧
        s.advance.advance.errors = s.errors ∧ Scanned (others ++ inner) := by
    rw [heq] at hahead hscanned
    have hadvance : s.advance.ahead = head :: (others ++ inner ++ opening :: keyword :: more) :=
      ahead_advance hahead
    refine ⟨ahead_advance hadvance, by simp, fun token htoken => ?_⟩
    exact hscanned token (mem_cons_of_mem _ (mem_cons_of_mem _ htoken))
  cases h with
  | @function first head heading args visibility name params trees info hopen hkind hvalue
      hheading hargs =>
      obtain ⟨hahead₂, herrors₂, hscanned₂⟩ := hskip rfl
      rw [append_assoc, append_assoc, ← append_assoc args] at hahead₂
      rw [append_assoc, scanned_append] at hscanned₂
      obtain ⟨_, s₃, hrun, ⟨nodes, rfl⟩, hahead₃, herrors₃⟩ :=
        signature_portable.takes hheading hscanned₂.1 hahead₂ trivial
      have hbound : trees.length < s₃.ahead.length := by
        have hlength := hargs.length_le (scanned_append.mp hscanned₂.2).1
        rw [hahead₃]
        simp only [length_append, length_cons]
        omega
      obtain ⟨exprs, s', hbody, hsame, hrest, herrors⟩ :=
        functionBodyUpTo_cut hargs hinner hopened hbound hscanned₂.2 hahead₃ hdefinition
      have hafter : formAfter? expr head.value = some (function expr visibility) := by
        rw [hvalue]
        cases visibility <;> rfl
      refine ⟨⟨some (.function ⟨⟨⟨first.location, s'.previous.finish⟩, s'.nextId⟩, name, visibility,
        params.map (Parameter.move (.later nodes)), exprs⟩), true⟩,
        { s' with nextId := s'.nextId + 1 }, ?_, rfl, ?_, hrest, ?_⟩
      · rw [form_run hahead hopen hkind hafter, function_run hrun, functionRest,
          bind_run_of_done (show functionBody expr s₃ = _ from hbody)]
        rfl
      · simp [Form.erase, Expr.eraseList_eq, hsame, Function.comp_def, Parameter.erase_move]
      · exact herrors.trans (by rw [herrors₃, herrors₂])
  | @constant first head name hopen hkind hvalue hname =>
      obtain ⟨hahead₂, herrors₂, hscanned₂⟩ := hskip rfl
      have hcut (start : Location) : Cut (constant expr start) ([name] ++ inner) :=
        ((expectName_takes _ hname).mono fun _ (_ : True) => trivial).cut (fun _ => hinner.bind)
          fun _ _ _ _ => trivial
      obtain ⟨s', hrun, hrest, herrors⟩ :=
        whole_cut (hcut first.location) hscanned₂ hahead₂ hdefinition
      refine ⟨⟨none, true⟩, s', ?_, rfl, rfl, hrest, by rw [herrors, herrors₂]⟩
      rw [form_run hahead hopen hkind (by rw [hvalue]; rfl)]
      exact hrun
  | @dataVar first head name type spec hopen hkind hvalue hname htype =>
      obtain ⟨hahead₂, herrors₂, hscanned₂⟩ := hskip rfl
      have hcut (start : Location) : Cut (dataVar expr start) (name :: type ++ inner) :=
        ((expectName_takes _ hname).mono fun _ (_ : True) => trivial).cut
          (fun _ => (typeSpec_portable.takes htype).cut (fun _ => hinner.bind)
            fun _ _ _ _ => trivial)
          fun _ _ _ _ => trivial
      obtain ⟨s', hrun, hrest, herrors⟩ :=
        whole_cut (hcut first.location) hscanned₂ hahead₂ hdefinition
      refine ⟨⟨none, true⟩, s', ?_, rfl, rfl, hrest, by rw [herrors, herrors₂]⟩
      rw [form_run hahead hopen hkind (by rw [hvalue]; rfl)]
      exact hrun

/-! ## The forms behind -/

theorem startsDefinition_of_forms (h : forms expr s = .done found s')
    (hclean : s'.errors = []) (hfound : found.filterMap id ≠ []) :
    ∃ opening keyword more, s.ahead = opening :: keyword :: more ∧
      startsDefinition (opening :: keyword :: more) = true := by
  have hne : s.ahead ≠ [] := by
    intro hnil
    rw [forms_nil hnil] at h
    cases h
    exact hfound rfl
  rw [forms_cons expr_orderly hne] at h
  obtain ⟨first, s₁, hfirst, h⟩ := bind_eq_done.mp h
  obtain ⟨rest, s₂, hrest, h⟩ := bind_eq_done.mp h
  cases h
  have hclean₁ := clean_of_onward (forms_orderly.done hrest) hclean
  obtain ⟨form, _, hform⟩ := formThenResume_clean expr_orderly hfirst hclean₁
  exact definition_starts hform

theorem forms_later {error} (h : forms expr s = .done found s')
    (hcount : s.nextId = 0) (hnone : s.errors = []) (hclean : s'.errors = [])
    (hahead : s₁.ahead = s.ahead) (hfinish : s₁.finish = s.finish) (herrors : s₁.errors = [error]) :
    ∃ s₂, forms expr s₁ = .done (found.map (Option.map (Form.move (.later s₁.nextId)))) s₂ ∧
      s₂.errors = [error] := by
  have hmoves : Moves (.later s₁.nextId) [error] s₁.beyond
      (List.map (Option.map (Form.move (.later s₁.nextId)))) (forms expr) (forms expr) :=
    forms_moves
  have hmoved := hmoves s
  rw [h] at hmoved
  obtain ⟨s₂, hrun, herrors₂⟩ := forms_previous hmoved s₁.previous
  have hplace :
      { s.move (.later s₁.nextId) [error] s₁.beyond with previous := s₁.previous } = s₁ := by
    obtain ⟨previous, ahead, hlive, finish, hkind, beyond, nextId, errors⟩ := s₁
    simp only at hahead hfinish herrors
    simp [move, hcount, hnone, hahead, hfinish, herrors]
  rw [hplace] at hrun
  exact ⟨s₂, hrun, herrors₂.trans (by simp [move, hclean])⟩

end Parser

/-- A definition that the next one cuts short loses its unfinished expression and no more. The
source is a definition up to a place where an expression may start, unfinished forms in that
place, one inside the other, and further definitions. There is one error, at the keyword of the
definition that follows. The contract has what is kept of the first definition, and all the
others as they are by themselves, with other numbers. -/
theorem parse_cut_short {source : String} {beginning later : List Token}
    {frames : List (List Token)} {kept : List Form} {rest : ParseResult}
    (hsource : tokenize source = beginning ++ frames.flatten ++ later)
    (hbeginning : Parser.Beginning beginning kept)
    (hcount : frames.length < Parser.maxNesting) (hframes : Parser.Frames Parser.maxNesting frames)
    (hlater : parseTokens later = .ok rest) (hclean : rest.errors = [])
    (hmore : rest.contract.body ≠ []) :
    ∃ opening keyword others result cut nodes, later = opening :: keyword :: others ∧
      parse source = .ok result ∧ result.errors = [Parser.interruption keyword] ∧
      result.contract.body = cut ++ rest.contract.body.map (Form.move (.later nodes)) ∧
      cut.map Form.erase = kept.map Form.erase := by
  obtain ⟨found, t, hfound, hbody, herrors⟩ := Parser.forms_of_parseTokens hlater
  rw [herrors] at hclean
  rw [hbody] at hmore
  -- Both parses end with the same token.
  obtain rfl | ⟨defined, last, rfl⟩ := List.eq_nil_or_concat later
  · cases hfound
    exact absurd rfl hmore
  rw [List.concat_eq_append] at hsource hlater hfound ⊢
  rw [← List.append_assoc] at hsource
  obtain ⟨hscanned, _, hlast, hstart⟩ := Parser.ofTokens_tokenize hsource
  have hrest := ofTokens_concat
    (fun token htoken => (hscanned token (List.mem_append_right _ htoken)).2) hlast
  rw [hrest] at hfound
  obtain ⟨opening, keyword, others, hdefined, hdefinition⟩ :=
    Parser.startsDefinition_of_forms hfound hclean hmore
  obtain rfl : defined = opening :: keyword :: others := hdefined
  -- The first form is cut, and the parse goes on where it is.
  obtain ⟨result, s₁, hform, hcut, hkept, hahead₁, herrors₁⟩ := Parser.form_cut
    (s := .ofTokens (tokenize source)) hbeginning (hframes.cut hcount) hframes.opened
    (Parser.scanned_append.mp hscanned).1 (by rw [hstart]) hdefinition
  have hfirst : Parser.formThenResume Parser.expr (.ofTokens (tokenize source)) =
    .done result.form s₁ :=
    Parser.formThenResume_eq_done.mpr ⟨result, s₁, hform, rfl, by rw [hcut]; rfl⟩
  have hfinish : s₁.finish = last := by
    rw [(Parser.form_orderly.done hform).finish, hstart]
  have herror : s₁.errors = [Parser.interruption keyword] := by
    rw [herrors₁, hstart]
    rfl
  obtain ⟨s₂, hforms, herrors₂⟩ :=
    Parser.forms_later hfound rfl rfl hclean hahead₁ hfinish herror
  have hwhole : Parser.forms Parser.expr (.ofTokens (tokenize source)) =
      .done (result.form :: found.map (Option.map (Form.move (.later s₁.nextId)))) s₂ := by
    rw [Parser.forms_cons Parser.expr_orderly (by simp [hstart])]
    exact Parser.bind_eq_done.mpr ⟨_, _, hfirst, Parser.bind_eq_done.mpr ⟨_, _, hforms, rfl⟩⟩
  obtain ⟨parsed, hparse, hbodyParsed, herrorsParsed⟩ := Parser.parse_of_forms hwhole
  refine ⟨opening, keyword, others ++ [last], parsed, result.form.toList, s₁.nextId, rfl, hparse,
    herrorsParsed.trans herrors₂, ?_, hkept⟩
  rw [hbodyParsed, hbody, List.map_filterMap]
  cases result.form <;> simp [List.filterMap_map]

/-! ## A function that is cut short -/

def unclosed : String :=
  "(define-public (f) a (let ((b true)) b (if b (g.h a (define-constant c b)"

def unclosedStart : List Token :=
  [onLine .leftParen 0 "(", onLine .keyword 1 "define-public", onLine .leftParen 15 "(",
    onLine .identifier 16 "f", onLine .rightParen 17 ")", onLine .identifier 19 "a"]

def unclosedFrames : List (List Token) :=
  [[onLine .leftParen 21 "(", onLine .keyword 22 "let", onLine .leftParen 26 "(",
      onLine .leftParen 27 "(", onLine .identifier 28 "b", onLine .bool 30 "true",
      onLine .rightParen 34 ")", onLine .rightParen 35 ")", onLine .identifier 37 "b"],
    [onLine .leftParen 39 "(", onLine .keyword 40 "if", onLine .identifier 43 "b"],
    [onLine .leftParen 45 "(", onLine .identifier 46 "g", onLine .dot 47 ".",
      onLine .identifier 48 "h", onLine .identifier 50 "a"]]

def unclosedRest : List Token :=
  [onLine .leftParen 52 "(", onLine .keyword 53 "define-constant", onLine .identifier 69 "c",
    onLine .identifier 71 "b", onLine .rightParen 72 ")", onLine .endOfInput 73 ""]

theorem frames_unclosed : Parser.Frames Parser.maxNesting unclosedFrames := by
  obtain ⟨_, hlet, _⟩ := exprs_onLine 127 37 "b"
  obtain ⟨_, hif, _⟩ := exprs_onLine 126 43 "b"
  obtain ⟨_, hcall, _⟩ := exprs_onLine 125 50 "a"
  have hbindings : ∃ found, Parser.Phrase (Parser.letBindings (Parser.exprWithin 127))
      [onLine .leftParen 26 "(", onLine .leftParen 27 "(", onLine .identifier 28 "b",
        onLine .bool 30 "true", onLine .rightParen 34 ")", onLine .rightParen 35 ")"] found :=
    ⟨_, _, rfl, rfl, rfl⟩
  obtain ⟨_, hbindings⟩ := hbindings
  have hdotted : Parser.Frame 125 (onLine .leftParen 45 "(" :: onLine .identifier 46 "g" ::
      ([onLine .dot 47 ".", onLine .identifier 48 "h"] ++ [onLine .identifier 50 "a"])) :=
    .call rfl rfl rfl (by simp [Parser.Apart]) hcall
  exact ⟨.letIn rfl rfl rfl hbindings hlet, .conditional rfl rfl rfl hif (by simp), hdotted,
    trivial⟩

theorem parse_cut_short_unclosed : ∃ result, parse unclosed = .ok result ∧
      result.errors.map (fun error => (error.code, error.location)) =
        [(.unterminatedForm, ⟨1, 54, 53⟩)] ∧
      result.contract.body.map Form.name? = [some "f", some "c"] := by
  have hsource : tokenize unclosed = unclosedStart ++ unclosedFrames.flatten ++ unclosedRest :=
    (tokenize_eq_tokensOf rfl).trans (by decide +kernel)
  have hsignature : Parser.Phrase Parser.signature
      [onLine .leftParen 15 "(", onLine .identifier 16 "f", onLine .rightParen 17 ")"]
      ("f", []) := ⟨_, rfl, rfl, rfl⟩
  obtain ⟨tree, hbody, _⟩ := exprs_onLine 128 19 "a"
  have hbeginning : Parser.Beginning unclosedStart
      [.function ⟨.nowhere, "f", .external, [], [tree]⟩] :=
    .function .nowhere rfl rfl rfl hsignature hbody
  obtain ⟨rest, hrest, hplain⟩ : ∃ result, parseTokens unclosedRest = .ok result ∧
      result.errors = [] ∧ result.contract.body.map Form.name? = [some "c"] :=
    exists_parseTokens (by decide +kernel)
  have hmore : rest.contract.body ≠ [] := by
    intro hnil
    simp [hnil] at hplain
  obtain ⟨opening, keyword, others, result, cut, nodes, hlater, hparse, herrors, hforms, hcut⟩ :=
    parse_cut_short hsource hbeginning (by decide) frames_unclosed hrest
      hplain.1 hmore
  refine ⟨result, hparse, ?_, ?_⟩
  · obtain ⟨-, hlater⟩ := List.cons.inj hlater
    obtain ⟨rfl, -⟩ := List.cons.inj hlater
    rw [herrors]
    rfl
  · have hmoved (d : Displacement) (form : Form) : (form.move d).name? = form.name? := by
      cases form <;> rfl
    have herased (form : Form) : form.erase.name? = form.name? := by
      cases form <;> rfl
    have hnames := congrArg (List.map Form.name?) hcut
    simp only [List.map_map, Function.comp_def, herased] at hnames
    rw [hforms, List.map_append, hnames, List.map_map, Function.comp_def]
    simp only [hmoved]
    rw [hplain.2]
    rfl

end ContractAudit
