import ContractAudit.Proofs.Parse.CutShort

/-!
# Where the parse goes on

The loop over forms starts a form at a definition unless a form before it takes up its tokens.
Recovery itself takes up none: it stops at every definition. Nor does a form take one up where it
looks for an expression, because that is interrupted and the loop goes on at the definition. But the
other parts of a form, such as its types, take the parenthesis of a definition for their own.

That an expression is looked for at some tokens is said by running the parser over a reader of
expressions that fails there.
-/

namespace ContractAudit

open Parse List

namespace Parser

variable {found : List (Option Form)} {rest place : List Token} {more : State → Bool} {α β : Type}
  {s s' : State} {first' first : Parser α} {next' next : α → Parser β} {error : Text.Numeral.Error}

/-! ## Looking for an expression -/

/-- A reader of expressions that fails where some tokens are all that is left. -/
def watching (place : List Token) (reader : Parser Expr) : Parser Expr :=
  fun state => if state.ahead = place then .failed (.malformed "") else reader state

/-- The parser of expressions with at most a number of nested levels, which fails where it looks for
one with a level left and some tokens are all that is left. -/
def exprWatching (place : List Token) : Nat → Parser Expr
  | 0 => exprWith skipNested
  | levels + 1 => watching place (exprWith (compoundExpr (exprWatching place levels)))

/-- The second parser does the same as the first one, or else it fails where the run of the first
one is of some kind. -/
def Catches (caught : Step α → Prop) (parser watcher : Parser α) : Prop :=
  ∀ s, watcher s = parser s ∨ (∃ error, watcher s = .failed error) ∧ caught (parser s)

namespace Catches

variable {caught : Step α → Prop} {caught' : Step β → Prop}

theorem refl (parser : Parser α) : Catches caught parser parser :=
  fun _ => .inl rfl

theorem bind_caught (hfirst : Catches caught first first')
    (hcaught : ∀ s, caught (first s) → caught' ((first >>= next) s))
    (hnext : ∀ value, Catches caught' (next value) (next' value)) :
    Catches caught' (first >>= next) (first' >>= next') := by
  intro s
  rcases hfirst s with hsame | ⟨⟨error, hfailed⟩, hrun⟩
  · show Parser.bind first' next' s = Parser.bind first next s ∨
      (∃ error, Parser.bind first' next' s = .failed error) ∧ caught' (Parser.bind first next s)
    unfold Parser.bind
    rw [hsame]
    cases first s with
    | done value s₁ => exact hnext value s₁
    | interrupted s₁ => exact .inl rfl
    | failed error => exact .inl rfl
  · refine .inr ⟨⟨error, ?_⟩, hcaught s hrun⟩
    show Parser.bind first' next' s = _
    rw [Parser.bind, hfailed]

theorem after (hnext : ∀ value, Catches caught' (next value) (next' value)) :
    Catches caught' (first >>= next) (first >>= next') :=
  bind_caught (show Catches (fun _ => False) first first from refl first) (fun _ => False.elim)
    hnext

theorem ite {condition : Prop} [Decidable condition] {yes yes' no no'}
    (hyes : Catches caught yes yes') (hno : Catches caught no no') :
    Catches caught (if condition then yes else no) (if condition then yes' else no') := by
  split
  · exact hyes
  · exact hno

end Catches

/-- The second parser does the same as the first one, or else it fails where the first one is
interrupted at a place. -/
abbrev Watches (place : List Token) : Parser α → Parser α → Prop :=
  Catches fun step => ∃ s', step = .interrupted s' ∧ s'.ahead = place

theorem Catches.bind (hfirst : Watches place first first')
    (hnext : ∀ value, Watches place (next value) (next' value)) :
    Watches place (first >>= next) (first' >>= next') :=
  hfirst.bind_caught (fun _ ⟨s', hrun, hplace⟩ => ⟨s', bind_run_of_interrupted hrun, hplace⟩) hnext

section Combinators

variable {item item' : Parser α}

variable (hitem : Watches place item item')

include hitem

theorem repeatUpTo_watches (bound : Nat) :
    Watches place (repeatUpTo more item bound) (repeatUpTo more item' bound) := by
  induction bound with
  | zero => exact .refl _
  | succ bound ih =>
      exact .after fun _ => .ite (.bind hitem fun _ => .bind ih fun _ => .refl _) (.refl _)

theorem repeatWhile_watches : Watches place (repeatWhile more item) (repeatWhile more item') :=
  fun s => repeatUpTo_watches hitem s.ahead.length s

theorem separatedUpTo_watches (bound : Nat) :
    Watches place (separatedUpTo item bound) (separatedUpTo item' bound) := by
  induction bound with
  | zero => exact .refl _
  | succ bound ih =>
      exact .after fun _ => .ite (.refl _) (.bind hitem fun _ => .after fun _ =>
        .ite (.after fun _ => .bind ih fun _ => .refl _) (.refl _))

theorem separated_watches : Watches place (separated item) (separated item') :=
  fun s => separatedUpTo_watches hitem s.ahead.length s

theorem unlessClosed_watches : Watches place (unlessClosed item) (unlessClosed item') :=
  .after fun _ => .ite (.bind hitem fun _ => .refl _) (.refl _)

end Combinators

section Expressions

variable {nested nested' : Parser Expr} (h : Watches place nested nested')

include h

theorem body_watches : Watches place (body nested) (body nested') :=
  repeatWhile_watches h

theorem parenField_watches : Watches place (parenField nested) (parenField nested') :=
  .after fun _ => .after fun _ => .ite (.after fun _ => .bind h fun _ => .refl _) (.refl _)

theorem callExpr_watches (start : Location) :
    Watches place (callExpr nested start) (callExpr nested' start) := by
  have hcallee : Watches place (callee nested) (callee nested') :=
    .after fun _ => .ite (.refl _) (.after fun _ => .bind (unlessClosed_watches h) fun _ => .refl _)
  exact .bind hcallee fun _ => .bind (body_watches h) fun _ => .refl _

theorem specialForm?_watches {keyword form}
    (hform : specialForm? keyword = some form) (start : Location) :
    Watches place (form nested start) (form nested' start) := by
  have hbinding : Watches place (letBinding nested) (letBinding nested') :=
    .after fun _ => .after fun _ => .bind h fun _ => .refl _
  have harm : Watches place (matchArm nested) (matchArm nested') :=
    .after fun _ => .after fun _ => .after fun _ => .bind (unlessClosed_watches h) fun _ => .refl _
  unfold specialForm? at hform
  split at hform <;> cases hform
  · refine .bind ?_ fun _ => .bind (body_watches h) fun _ => .refl _
    exact .after fun _ => .ite (.bind (repeatWhile_watches hbinding) fun _ => .refl _) (.refl _)
  · exact .bind (body_watches h) fun _ => .refl _
  · exact .bind h fun _ => .bind h fun _ => .bind (unlessClosed_watches h) fun _ => .refl _
  · exact .bind h fun _ => .bind (repeatWhile_watches harm) fun _ => .refl _
  · exact .bind (body_watches h) fun _ => .refl _
  · exact .bind (repeatWhile_watches (parenField_watches h)) fun _ => .refl _

theorem compoundExpr_watches : Watches place (compoundExpr nested) (compoundExpr nested') := by
  have hfield : Watches place (braceField nested) (braceField nested') :=
    .after fun _ => .after fun _ => .after fun _ => .bind h fun _ => .refl _
  refine .after fun _ => .ite (.after fun before => .after fun first => .after fun head => ?_)
    (.after fun _ => .bind (separated_watches hfield) fun _ => .refl _)
  obtain ⟨kind, value, raw, location⟩ := head
  cases kind with
  | rightParen => exact .refl _
  | keyword =>
      refine .ite (.refl _) ?_
      cases hform : specialForm? value with
      | some form => exact .after fun _ => specialForm?_watches h hform _
      | none => exact callExpr_watches h _
  | _ => exact callExpr_watches h _

theorem exprWith_watches : Watches place (exprWith nested) (exprWith nested') := by
  refine .after fun token => ?_
  cases token.kind with
  | leftParen | leftBrace => exact h
  | _ => exact .refl _

end Expressions

theorem exprWatching_watches (hdefinition : startsDefinition place = true) (levels : Nat) :
    Watches place (exprWithin levels) (exprWatching place levels) := by
  induction levels with
  | zero => exact .refl _
  | succ levels ih =>
      intro s
      by_cases hplace : s.ahead = place
      · -- Here the parser meets the definition and goes back to it.
        match place, hdefinition, hplace with
        | opening :: keyword :: more, hdefinition, hplace =>
            obtain ⟨s', hrun, hahead, _⟩ := exprWithin_cut (forall_mem_nil _) hplace hdefinition
            exact .inr ⟨⟨_, if_pos hplace⟩, s', hrun, hahead⟩
      · have hother := exprWith_watches (compoundExpr_watches ih) s
        have hreader : exprWatching place (levels + 1) s =
            exprWith (compoundExpr (exprWatching place levels)) s := if_neg hplace
        rwa [hreader]

/-! ## Forms that are cut short -/

/-- A run stops at a place with a value that is cut short. -/
def CutAt (isCut : α → Prop) (place : List Token) (step : Step α) : Prop :=
  ∃ value s', step = .done value s' ∧ isCut value ∧ s'.ahead = place

/-- What follows a value that is cut short reads nothing. -/
theorem CutAt.bind {isCut : α → Prop} {isCut' : β → Prop}
    (h : ∀ value s, isCut value → CutAt isCut' s.ahead (next value s)) (s : State)
    (hfirst : CutAt isCut place (first s)) : CutAt isCut' place ((first >>= next) s) := by
  obtain ⟨value, s₁, hrun, hcut, rfl⟩ := hfirst
  rw [bind_run_of_done hrun]
  exact h value s₁ hcut

theorem unlessInterrupted_catches {item item' : Parser α} (h : Watches place item item') :
    Catches (CutAt (· = none) place) (unlessInterrupted item) (unlessInterrupted item') := by
  intro s
  unfold unlessInterrupted
  rcases h s with hsame | ⟨⟨error, hfailed⟩, s', hinterrupted, hplace⟩
  · rw [hsame]
    exact .inl rfl
  · rw [hfailed, hinterrupted]
    exact .inr ⟨⟨error, rfl⟩, none, s', rfl, rfl, hplace⟩

section Forms

variable {read read' : Parser Expr} (h : Watches place read read')

include h

theorem functionBodyUpTo_catches (bound : Nat) :
    Catches (CutAt (·.2 = true) place) (functionBodyUpTo read bound)
      (functionBodyUpTo read' bound) := by
  induction bound with
  | zero => exact .refl _
  | succ bound ih =>
      refine .after fun _ => .ite (.bind_caught (unlessInterrupted_catches h) (CutAt.bind ?_)
        fun found => ?_) (.refl _)
      · rintro _ s rfl
        exact ⟨([], true), s, rfl, rfl, rfl⟩
      · cases found with
        | none => exact .refl _
        | some first =>
            refine .bind_caught ih (CutAt.bind ?_) fun _ => .refl _
            rintro ⟨rest, _⟩ s rfl
            exact ⟨(first :: rest, true), s, rfl, rfl, rfl⟩

theorem function_catches (visibility : Visibility) (start : Location) :
    Catches (CutAt (·.cut = true) place) (function read visibility start)
      (function read' visibility start) := by
  have hbody : Catches (CutAt (·.2 = true) place) (functionBody read)
      (functionBody read') := fun s => functionBodyUpTo_catches h s.ahead.length s
  refine .after fun _ => .after fun _ => .after fun _ => .after fun _ =>
    .bind_caught hbody (CutAt.bind ?_) fun _ => .refl _
  rintro ⟨exprs, _⟩ s rfl
  exact ⟨_, _, rfl, rfl, rfl⟩

omit h in
theorem whole_catches {parser parser' : Parser Form} (hparser : Watches place parser parser') :
    Catches (CutAt (·.cut = true) place) (whole parser) (whole parser') := by
  refine .bind_caught (unlessInterrupted_catches hparser) (CutAt.bind ?_) fun _ => .refl _
  rintro _ s rfl
  exact ⟨⟨none, true⟩, s, rfl, rfl, rfl⟩

theorem formAfter?_catches (keyword : String) :
    Option.Rel (fun rest rest' => ∀ start, Catches (CutAt (·.cut = true) place) (rest start)
      (rest' start)) (formAfter? read keyword) (formAfter? read' keyword) := by
  unfold formAfter?
  split
  · exact .some fun _ => whole_catches (.after fun _ => .bind h fun _ => .refl _)
  · exact .some (function_catches h _)
  · exact .some (function_catches h _)
  · exact .some (function_catches h _)
  · exact .some fun _ => .refl _
  · exact .some fun _ => whole_catches (.after fun _ => .after fun _ => .bind h fun _ => .refl _)
  · exact .some fun _ => .refl _
  · exact .some fun _ => whole_catches (.after fun _ => .bind (unlessClosed_watches h) fun _ =>
      .refl _)
  · exact .some fun _ => .refl _
  · exact .some fun _ => whole_catches (.after fun _ => .bind h fun _ => .refl _)
  · exact .some fun _ => whole_catches (.bind h fun _ => .refl _)
  · exact .none

theorem form_catches :
    Catches (CutAt (·.cut = true) place) (form read) (form read') := by
  refine .after fun first => .ite (.refl _) (.after fun head => ?_)
  unfold formAt?
  by_cases hkind : head.kind = .keyword
  · rw [if_pos hkind, if_pos hkind]
    have hrest := formAfter?_catches h head.value
    generalize formAfter? read head.value = found, formAfter? read' head.value = found'
      at hrest ⊢
    cases hrest with
    | none => exact .refl _
    | some hrest => exact .after fun _ => hrest _
  · rw [if_neg hkind, if_neg hkind]
    exact .refl _

theorem formThenResume_catches :
    Catches (CutAt (fun _ => True) place) (formThenResume read) (formThenResume read') := by
  refine .after fun _ => .after fun _ => .bind_caught (form_catches h) (CutAt.bind ?_)
    fun _ => .refl _
  rintro ⟨form, _⟩ s rfl
  exact ⟨form, s, rfl, trivial, rfl⟩

end Forms

/-! ## Turns of the loop -/

/-- The loop over forms comes from one state to another and starts a form there. -/
inductive Turn : State → State → Prop where
  | here {s : State} : s.ahead ≠ [] → Turn s s
  | later {s s₁ s' : State} {found : Option Form} :
      s.ahead ≠ [] → formThenResume expr s = .done found s₁ → Turn s₁ s' → Turn s s'

namespace Turn

variable {t u : State}

theorem ne_nil (h : Turn s t) : t.ahead ≠ [] := by
  induction h with
  | here hne => exact hne
  | later _ _ _ ih => exact ih

theorem suffix (h : Turn s t) : t.ahead <:+ s.ahead := by
  induction h with
  | here _ => exact suffix_refl _
  | later _ hround _ ih => exact ih.trans (formThenResume_orderly.done hround).ahead

theorem total (h : Turn s t) (h' : Turn s u) : Turn t u ∨ Turn u t := by
  induction h with
  | here _ => exact .inl h'
  | later hne hround hrest ih =>
      cases h' with
      | here _ => exact .inr (.later hne hround hrest)
      | later _ hround' hrest' =>
          rw [hround] at hround'
          cases hround'
          exact ih hrest'

end Turn

theorem suffix_skipToForm {tokens} (hdefinition : startsDefinition rest = true)
    (h : rest <:+ tokens) (line : Int) (previous : Token) :
    rest <:+ (skipToForm line previous tokens).2 := by
  induction tokens generalizing previous with
  | nil => exact h
  | cons token others ih =>
      unfold skipToForm
      split
      · exact h
      · next hskip =>
          refine ih ((suffix_cons_iff.mp h).resolve_left fun heq => hskip ?_) token
          rw [← heq, hdefinition, Bool.or_true, Bool.true_or]

theorem suffix_resume (hdefinition : startsDefinition rest = true)
    (h : rest <:+ s.ahead) (line : Int) : rest <:+ (resume line s).ahead := by
  cases hahead : s.ahead with
  | nil =>
      rw [resume_of_nil line hahead]
      exact hahead ▸ h
  | cons token others =>
      rw [resume_of_cons line hahead]
      split
      · exact h
      · next hskip =>
          rw [hahead] at h
          refine suffix_skipToForm hdefinition
            ((suffix_cons_iff.mp h).resolve_left fun heq => hskip ?_) line token
          rw [← heq, hdefinition]

/-- A form that starts before some tokens takes up the first one of them. -/
def TakesUp (s : State) (rest : List Token) : Prop :=
  ∃ result s', form expr s = .done result s' ∧ rest <:+ s.advance.ahead ∧ ¬rest <:+ s'.ahead

theorem turn_or_takesUp (hdefinition : startsDefinition rest = true)
    (hrun : forms expr s = .done found s') (hrest : rest <:+ s.ahead) :
    (∃ t, Turn s t ∧ t.ahead = rest) ∨ ∃ t, Turn s t ∧ TakesUp t rest := by
  have hnil : rest ≠ [] := by
    rintro rfl
    cases hdefinition
  induction hlength : s.ahead.length using Nat.strongRecOn generalizing s found with
  | ind length ih =>
      have hne : s.ahead ≠ [] := by
        intro hend
        rw [hend, suffix_nil] at hrest
        exact hnil hrest
      by_cases hhere : s.ahead = rest
      · exact .inl ⟨s, .here hne, hhere⟩
      rw [forms_cons expr_orderly hne] at hrun
      obtain ⟨first, s₁, hround, hrun⟩ := bind_eq_done.mp hrun
      obtain ⟨others, s₂, hothers, hrun⟩ := bind_eq_done.mp hrun
      cases hrun
      obtain ⟨result, s₃, hform, _, hresume⟩ := formThenResume_eq_done.mp hround
      by_cases hbehind : rest <:+ s₃.ahead
      · have hkept : rest <:+ s₁.ahead := by
          unfold resumeIf at hresume
          split at hresume
          · cases hresume
            exact suffix_resume hdefinition hbehind _
          · cases hresume
            exact hbehind
        have hshorter := length_formThenResume expr_orderly hround hne
        rcases ih _ (by omega) hothers hkept rfl with ⟨t, hturn, ht⟩ | ⟨t, hturn, ht⟩
        · exact .inl ⟨t, .later hne hround hturn, ht⟩
        · exact .inr ⟨t, .later hne hround hturn, ht⟩
      · refine .inr ⟨s, .here hne, result, s₃, hform, ?_, hbehind⟩
        obtain ⟨token, later, hcons⟩ := exists_cons_of_ne_nil hne
        rw [hcons] at hrest hhere
        rw [State.advance_eq hcons]
        exact (suffix_cons_iff.mp hrest).resolve_left (Ne.symm hhere)

theorem Turn.not_takesUp {t u : State} (h : Turn s t) (h' : Turn s u) : ¬TakesUp u t.ahead := by
  rintro ⟨result, s₁, hform, hbefore, hover⟩
  have hshort : t.ahead.length < u.ahead.length := by
    have hle := hbefore.length_le
    have hpos := length_pos_iff.mpr h'.ne_nil
    rw [State.length_advance] at hle
    omega
  rcases h.total h' with hturn | hturn
  · have hle := hturn.suffix.length_le
    omega
  · cases hturn with
    | here _ => omega
    | later _ hround hrest =>
        obtain ⟨result', s₂, hform', _, hresume⟩ := formThenResume_eq_done.mp hround
        rw [hform] at hform'
        cases hform'
        exact hover (hrest.suffix.trans ((resumeIf_behaves _ _).done hresume).ahead)

theorem failed_of_bind (hnext : ∀ value s, next value s ≠ .failed error)
    (h : (first >>= next) s = .failed error) : first s = .failed error := by
  change Parser.bind first next s = _ at h
  unfold Parser.bind at h
  cases hstep : first s with
  | done value s₁ =>
      rw [hstep] at h
      exact absurd h (hnext value s₁)
  | interrupted s₁ =>
      rw [hstep] at h
      cases h
  | failed error' =>
      rw [hstep] at h
      cases h
      rfl

theorem turn_of_failed {read} (h : Watches place expr read) (hplace : place ≠ []) {bound : Nat}
    (hrun : repeatUpTo (fun state => !state.atEnd) (formThenResume expr) bound s = .done found s')
    (hfailed : repeatUpTo (fun state => !state.atEnd) (formThenResume read) bound s =
      .failed error) : ∃ t, Turn s t ∧ t.ahead = place := by
  have hround := formThenResume_catches h
  induction bound generalizing s s' found with
  | zero => cases hfailed
  | succ bound ih =>
      rw [repeatUpTo, ask_bind_run] at hrun hfailed
      by_cases hmore : (!s.atEnd) = true
      · rw [if_pos hmore] at hrun hfailed
        have hne := more_iff.mp hmore
        obtain ⟨first, s₁, hfirst, hrun⟩ := bind_eq_done.mp hrun
        obtain ⟨rest, s₂, hrest, hrun⟩ := bind_eq_done.mp hrun
        rcases hround s with hsame | ⟨_, value, s₃, hdone, _, hahead⟩
        · rw [bind_run_of_done (hsame.trans hfirst)] at hfailed
          have hloop := failed_of_bind (fun _ _ hpure => by cases hpure) hfailed
          obtain ⟨t, hturn, ht⟩ := ih hrest hloop
          exact ⟨t, .later hne hfirst hturn, ht⟩
        · rw [hfirst] at hdone
          cases hdone
          exact ⟨s₁, .later hne hfirst (.here (hahead ▸ hplace)), hahead⟩
      · rw [if_neg hmore] at hfailed
        cases hfailed

end Parser

/-! ## Definitions -/

def StartsForm (tokens rest : List Token) : Prop :=
  ∃ s, Parser.Turn (.ofTokens tokens) s ∧ s.ahead = rest

/-- The parse of a token list has started a form before some of its tokens that takes up the first
one of them. -/
def ReadOver (tokens rest : List Token) : Prop :=
  ∃ s, Parser.Turn (.ofTokens tokens) s ∧ Parser.TakesUp s rest

def Parse.Step.isFailed {α : Type} : Step α → Bool
  | .failed _ => true
  | _ => false

theorem Parse.Step.isFailed_iff {α : Type} {step : Step α} :
    step.isFailed = true ↔ ∃ error, step = .failed error := by
  cases step <;> simp [isFailed]

/-- The parse of a token list looks for an expression at some of its tokens, with a level of nesting
left: it would fail there with a reader of expressions that does. -/
def LooksForExpr (tokens rest : List Token) : Prop :=
  (Parser.contract (Parser.exprWatching rest Parser.maxNesting)
    (.ofTokens tokens)).isFailed = true

instance (tokens rest : List Token) : Decidable (LooksForExpr tokens rest) :=
  inferInstanceAs (Decidable (_ = true))

/-- The parse starts a form at a definition unless a form before it takes it up, and it does so in
any case where it looks for an expression. -/
theorem parseTokens_starts_definition {tokens rest : List Token} {result : ParseResult}
    (h : parseTokens tokens = .ok result) (hrest : rest <:+ (State.ofTokens tokens).ahead)
    (hdefinition : Parser.startsDefinition rest = true) :
    (StartsForm tokens rest ↔ ¬ReadOver tokens rest) ∧
      (LooksForExpr tokens rest → StartsForm tokens rest) := by
  obtain ⟨state, hrun, _⟩ := parseTokens_eq_ok.mp h
  rw [Parser.contract, Parser.peek_bind_run] at hrun
  obtain ⟨found, s₁, hforms, _⟩ := Parser.bind_eq_done.mp hrun
  refine ⟨⟨?_, fun hover => ?_⟩, ?_⟩
  · rintro ⟨t, hturn, rfl⟩ ⟨u, hturn', htakes⟩
    exact hturn.not_takesUp hturn' htakes
  · exact (Parser.turn_or_takesUp hdefinition hforms hrest).resolve_right hover
  · intro hlooks
    have hplace : rest ≠ [] := by
      rintro rfl
      cases hdefinition
    obtain ⟨error, hfailed⟩ := Step.isFailed_iff.mp hlooks
    rw [Parser.contract, Parser.peek_bind_run] at hfailed
    exact Parser.turn_of_failed (Parser.exprWatching_watches hdefinition _) hplace hforms
      (Parser.failed_of_bind (fun _ _ hnode => by cases hnode) hfailed)

def unclosedBlock : String :=
  "(define-public (f) (begin (ok u1)\n(define-constant x u1)\n"

def unclosedMap : String :=
  "(define-map m uint\n(define-constant x u1)\n"

theorem parseTokens_starts_constant :
    ∃ result rest, parseTokens (tokenize unclosedBlock) = .ok result ∧
      rest <:+ (State.ofTokens (tokenize unclosedBlock)).ahead ∧
      Parser.startsDefinition rest = true ∧ LooksForExpr (tokenize unclosedBlock) rest ∧
      StartsForm (tokenize unclosedBlock) rest ∧ ¬ReadOver (tokenize unclosedBlock) rest := by
  rw [tokenize_eq_tokensOf (show unclosedBlock = .ofList unclosedBlock.toList by simp)]
  obtain ⟨result, hparse, _⟩ : ∃ result, parseTokens (tokensOf unclosedBlock.toList) = .ok result ∧
      True :=
    exists_parseTokens (by decide +kernel)
  have hrest := List.drop_suffix 11 (State.ofTokens (tokensOf unclosedBlock.toList)).ahead
  have hdefinition : Parser.startsDefinition
      ((State.ofTokens (tokensOf unclosedBlock.toList)).ahead.drop 11) = true := by
    decide +kernel
  have hlooks : LooksForExpr (tokensOf unclosedBlock.toList)
      ((State.ofTokens (tokensOf unclosedBlock.toList)).ahead.drop 11) := by
    decide +kernel
  obtain ⟨hiff, hstarts⟩ := parseTokens_starts_definition hparse hrest hdefinition
  exact ⟨result, _, hparse, hrest, hdefinition, hlooks, hstarts hlooks, hiff.mp (hstarts hlooks)⟩

/-- The second type of a map that is not closed is read from a definition: no form starts there, and
the constant is lost. -/
theorem definition_read_as_type : ∃ result rest, parse unclosedMap = .ok result ∧
      rest <:+ (State.ofTokens (tokenize unclosedMap)).ahead ∧
      Parser.startsDefinition rest = true ∧
      result.errors.map Diagnostic.code = [.unterminatedForm] ∧ result.contract.body.length = 1 ∧
      ¬StartsForm (tokenize unclosedMap) rest := by
  rw [parse, tokenize_eq_tokensOf (show unclosedMap = .ofList unclosedMap.toList by simp)]
  obtain ⟨result, hparse, hresult⟩ : ∃ result, parseTokens (tokensOf unclosedMap.toList) =
      .ok result ∧ result.errors.map Diagnostic.code = [.unterminatedForm] ∧
        result.contract.body.length = 1 :=
    exists_parseTokens (by decide +kernel)
  -- The first turn takes up all tokens, so there is no other one.
  have hround : Step.casesOn (motive := fun _ => Bool)
      (Parser.formThenResume Parser.expr (.ofTokens (tokensOf unclosedMap.toList)))
      (fun _ s => s.ahead.isEmpty) (fun _ => false) (fun _ => false) = true := by
    decide +kernel
  have hlength : (State.ofTokens (tokensOf unclosedMap.toList)).ahead.length = 9 := by
    decide +kernel
  refine ⟨result, (State.ofTokens (tokensOf unclosedMap.toList)).ahead.drop 4, hparse,
    List.drop_suffix _ _, by decide +kernel, hresult.1, hresult.2, ?_⟩
  rintro ⟨t, hturn, ht⟩
  cases hturn with
  | here _ =>
      have hdrop := congrArg List.length ht
      rw [List.length_drop, hlength] at hdrop
      cases hdrop
  | later _ hrun hrest =>
      rw [hrun] at hround
      exact hrest.ne_nil (List.suffix_nil.mp (List.isEmpty_iff.mp hround ▸ hrest.suffix))

end ContractAudit
