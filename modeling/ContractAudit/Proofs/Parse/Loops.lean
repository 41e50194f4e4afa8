import ContractAudit.Proofs.Parse.Onward

/-!
# Loops and recursion without a bound

The loops of the parser, and the recursion into types and patterns, carry a bound: the number of
unread tokens. The bound is never reached. Every round of a loop reads a token (`Advances`), so a
loop is one round and then the same loop again (`RunsOut`), until its condition fails. A type or a
pattern nested in another one stands behind a token, so it does not matter what its parser does
where as many tokens are unread (`AgreeUpTo`).
-/

namespace ContractAudit

open Parse State List

namespace Parse.State

variable {s s' : State}

theorem ne_nil_of_inBody (h : s.inBody = true) : s.ahead ≠ [] := by
  obtain ⟨token, rest, hahead, _⟩ := inBody_iff.mp h
  rw [hahead]
  exact cons_ne_nil _ _

theorem kind_of_inBody (h : s.inBody = true) :
    s.current.kind ≠ .rightParen ∧ s.current.kind ≠ .endOfInput := by
  obtain ⟨token, rest, hahead, hkind⟩ := inBody_iff.mp h
  rw [current_eq hahead]
  exact ⟨hkind, s.live token (by rw [hahead]; exact mem_cons_self)⟩

theorem kind_of_nil (h : s.ahead = []) : s.current.kind = .endOfInput := by
  rw [current_headD, h]
  exact s.finish_kind

end Parse.State

namespace Parser

variable {α β : Type} {s s' : State} {given : State → Prop} {count : Nat} {parser second : Parser α}
  {p : Prop}

/-! ## Parsers that read a token -/

/-- Where the condition holds, a run that ends with a value has read a token. -/
def Advances (given : State → Prop) (parser : Parser α) : Prop :=
  ∀ ⦃s value s'⦄, given s → parser s = .done value s' → s'.ahead.length < s.ahead.length

theorem Advances.mono {given' : State → Prop} (h : Advances given parser)
    (hgiven : ∀ s : State, given' s → given s) : Advances given' parser :=
  fun s _ _ hs => h (hgiven s hs)

theorem Advances.bind {first} {next : α → Parser β} (hfirst : Advances given first)
    (hnext : ∀ value, GoesOnward (next value)) : Advances given (first >>= next) := by
  intro s value s' hs h
  obtain ⟨middle, s₁, hrun, hrest⟩ := bind_eq_done.mp h
  have hless := hfirst hs hrun
  have hle := (hnext middle hrest).ahead.length_le
  omega

theorem ask_advances {question} {next : α → Parser β}
    (h : ∀ answer, Advances (fun s => given s ∧ question s = answer) (next answer)) :
    Advances given (ask question >>= next) :=
  fun _ _ _ hs hrun => h _ ⟨hs, rfl⟩ hrun

theorem peek_advances {next : Token → Parser α}
    (h : ∀ token, Advances (fun s => given s ∧ s.current = token) (next token)) :
    Advances given (peek >>= next) :=
  ask_advances h

theorem advances_ite [Decidable p] {first} (hfirst : p → Advances given first)
    (hsecond : ¬p → Advances given second) : Advances given (if p then first else second) := by
  split
  · next hp => exact hfirst hp
  · next hp => exact hsecond hp

theorem advance_advances {next : Token → Parser α} (hnext : ∀ token, GoesOnward (next token)) :
    Advances (·.ahead ≠ []) (advance >>= next) := by
  refine Advances.bind (fun s token s' hahead h => ?_) hnext
  cases h
  have hpos := length_pos_iff.mpr hahead
  rw [length_advance]
  omega

theorem Begins.advances (h : Begins .orderly parser) : Advances (·.ahead ≠ []) parser := by
  obtain ⟨next, rfl, hnext⟩ := h
  exact advance_advances fun token => (hnext token).goesOnward

theorem reportHere_advances {message} {next : Unit → Parser α}
    (hnext : ∀ answer, Advances (·.ahead ≠ []) (next answer)) :
    Advances (·.ahead ≠ []) (reportHere message >>= next) :=
  fun s _ _ hs hrun => hnext () (s := s.reportHere message) hs hrun

/-! ## Loops -/

/-- A round of a loop and what comes after it, unless the condition of the loop fails. -/
def round (more : State → Bool) (item : Parser α) (loop : Parser (List α)) : Parser (List α) := do
  if ← ask more then
    let first ← item
    let rest ← loop
    pure (first :: rest)
  else
    pure []

/-- Every round of the loop reads a token, and rounds follow each other until the condition
fails. -/
structure RunsOut (more : State → Bool) (item : Parser α) (loop : Parser (List α)) : Prop where
  advances : Advances (more · = true) item
  unfolds : loop = round more item loop

theorem unbounded (upTo : Nat → Parser α) (step : Parser α → Parser α)
    (hsucc : ∀ bound, upTo (bound + 1) = step (upTo bound))
    (hzero : ∀ (s : State) (loop : Parser α), s.ahead = [] → upTo 0 s = step loop s)
    (hstep : ∀ (s : State) (bound : Nat) (loop : Parser α),
      (∀ s', s'.ahead.length < s.ahead.length → upTo bound s' = loop s') →
        step (upTo bound) s = step loop s) :
    (∀ {s : State} {bound bound' : Nat}, s.ahead.length ≤ bound → bound ≤ bound' →
      upTo bound s = upTo bound' s) ∧
    ∀ s, upTo s.ahead.length s = step (fun s => upTo s.ahead.length s) s := by
  have henough {s : State} {bound bound' : Nat} (hlength : s.ahead.length ≤ bound)
      (hbound : bound ≤ bound') : upTo bound s = upTo bound' s := by
    induction bound generalizing bound' s with
    | zero =>
        cases bound' with
        | zero => rfl
        | succ bound' =>
            rw [hsucc]
            exact hzero s _ (length_eq_zero_iff.mp (Nat.le_zero.mp hlength))
    | succ bound ih =>
        obtain ⟨bound', rfl⟩ : ∃ n, bound' = n + 1 := ⟨bound' - 1, by omega⟩
        rw [hsucc, hsucc]
        exact hstep s bound _ fun s' hshorter => ih (by omega) (Nat.le_of_succ_le_succ hbound)
  refine ⟨henough, fun s => ?_⟩
  -- One more round is allowed than there are tokens, so that the first one can be taken out.
  rw [henough (Nat.le_refl _) (Nat.le_succ _), hsucc]
  exact hstep s _ _ fun s' hshorter =>
    (henough (Nat.le_refl _) (Nat.le_of_lt hshorter)).symm

section Loops

variable {more : State → Bool} {item : Parser α} {loop loop' : Parser (List α)}

theorem round_congr (h : ∀ first s₁, more s = true → item s = .done first s₁ → loop s₁ = loop' s₁) :
    round more item loop s = round more item loop' s := by
  rw [round, round, ask_bind_run, ask_bind_run]
  split
  · next hmore =>
      show Parser.bind item _ s = Parser.bind item _ s
      unfold Parser.bind
      cases hfirst : item s with
      | done first s₁ => exact bind_congr_run (h first s₁ hmore hfirst) _
      | _ => rfl
  · rfl

theorem repeatWhile_runsOut (hmore : ∀ s : State, more s = true → s.ahead ≠ [])
    (hitem : Advances (more · = true) item) : RunsOut more item (repeatWhile more item) where
  advances := hitem
  unfolds := by
    funext s
    refine (unbounded (repeatUpTo more item) (round more item) (fun _ => rfl) ?_ ?_).2 s
    · intro s loop hahead
      rw [round, ask_bind_run, Bool.eq_false_iff.mpr fun h => hmore s h hahead]
      rfl
    · exact fun s bound loop h => round_congr fun first s₁ hrun hfirst => h s₁ (hitem hrun hfirst)

theorem repeatInBody_runsOut (hitem : Advances (inBody · = true) item) :
    RunsOut inBody item (repeatWhile inBody item) :=
  repeatWhile_runsOut (fun _ => ne_nil_of_inBody) hitem

theorem Begins.runsOut (hitem : Begins .orderly item) :
    RunsOut (·.sees .leftParen) item (repeatWhile (·.sees .leftParen) item) :=
  have hopen : ∀ s : State, s.sees .leftParen = true → s.ahead ≠ [] := fun _ h =>
    ne_nil_of_sees h (by decide)
  repeatWhile_runsOut hopen (hitem.advances.mono hopen)

def commaRound (item : Parser α) (loop : Parser (List α)) : Parser (List α) := do
  if ← ask fun state => state.sees .rightBrace || state.atEnd then
    pure []
  else
    let first ← item
    if ← ask (·.sees .comma) then
      let _ ← advance
      let rest ← loop
      pure (first :: rest)
    else
      pure [first]

theorem commaRound_congr (h : ∀ first s₁, item s = .done first s₁ → s₁.sees .comma = true →
      loop s₁.advance = loop' s₁.advance) : commaRound item loop s = commaRound item loop' s := by
  rw [commaRound, commaRound, ask_bind_run, ask_bind_run]
  split
  · rfl
  · show Parser.bind item _ s = Parser.bind item _ s
    unfold Parser.bind
    cases hfirst : item s with
    | done first s₁ =>
        dsimp only
        rw [ask_bind_run, ask_bind_run]
        split
        · next hcomma => exact bind_congr_run (h first s₁ hfirst hcomma) _
        · rfl
    | _ => rfl

theorem length_afterComma (honward : GoesOnward item) {first : α} {s₁ : State}
    (hfirst : item s = .done first s₁) (hcomma : s₁.sees .comma = true) :
    s₁.advance.ahead.length < s.ahead.length := by
  have hle := (honward hfirst).ahead.length_le
  have hpos := length_pos_iff.mpr (ne_nil_of_sees hcomma (by decide))
  rw [length_advance]
  omega

theorem separated_unfolds (honward : GoesOnward item) :
    separated item = commaRound item (separated item) := by
  funext s
  refine (unbounded (separatedUpTo item) (commaRound item) (fun _ => rfl) ?_ ?_).2 s
  · intro s loop hahead
    have hstop : (s.sees .rightBrace || s.atEnd) = true := by
      simp [atEnd_iff.mpr hahead]
    rw [commaRound, ask_bind_run, hstop]
    rfl
  · exact fun s bound loop h => commaRound_congr fun first s₁ hfirst hcomma =>
      h _ (length_afterComma honward hfirst hcomma)

end Loops

/-! ## Recursion -/

/-- The parsers give the same where at most some number of tokens is unread. -/
def AgreeUpTo (count : Nat) (parser parser' : Parser α) : Prop :=
  ∀ s : State, s.ahead.length ≤ count → parser s = parser' s

section Agreement

variable {first first' : Parser α} {next next' : α → Parser β} {item item' : Parser α}

theorem AgreeUpTo.refl (parser : Parser α) : AgreeUpTo count parser parser :=
  fun _ _ => rfl

theorem AgreeUpTo.bind (hfirst : AgreeUpTo count first first') (honward : GoesOnward first)
    (hnext : ∀ value, AgreeUpTo count (next value) (next' value)) :
    AgreeUpTo count (first >>= next) (first' >>= next') := by
  intro s hs
  show Parser.bind first next s = Parser.bind first' next' s
  unfold Parser.bind
  rw [← hfirst s hs]
  cases hrun : first s with
  | done value s₁ =>
      have hle := (honward hrun).ahead.length_le
      exact hnext value s₁ (by omega)
  | _ => rfl

/-- The same parser first, and then parsers that agree. -/
theorem AgreeUpTo.after (honward : GoesOnward first)
    (hnext : ∀ value, AgreeUpTo count (next value) (next' value)) :
    AgreeUpTo count (first >>= next) (first >>= next') :=
  .bind (.refl first) honward hnext

theorem AgreeUpTo.afterAdvance {next next' : Token → Parser α}
    (hnext : ∀ token, AgreeUpTo count (next token) (next' token)) :
    AgreeUpTo (count + 1) (advance >>= next) (advance >>= next') := by
  intro s hs
  have hless := length_advance s
  exact hnext s.current s.advance (by omega)

theorem agree_ite [Decidable p] {second'} (hfirst : AgreeUpTo count first first')
    (hsecond : AgreeUpTo count second second') :
    AgreeUpTo count (if p then first else second) (if p then first' else second') := by
  split
  · exact hfirst
  · exact hsecond

section

variable (hitem : AgreeUpTo count item item') (honward : Orderly item)

include hitem honward

theorem repeatWhile_agree {more} :
    AgreeUpTo count (repeatWhile more item) (repeatWhile more item') := by
  have hbounded (bound : Nat) :
      AgreeUpTo count (repeatUpTo more item bound) (repeatUpTo more item' bound) := by
    induction bound with
    | zero => exact .refl _
    | succ bound ih =>
        exact .after (ask_behaves _).goesOnward fun _ => agree_ite
          (.bind hitem honward.goesOnward fun _ => .bind ih
            (repeatUpTo_behaves honward bound).goesOnward fun _ => .refl _) (.refl _)
  exact fun s => hbounded s.ahead.length s

theorem separated_agree : AgreeUpTo count (separated item) (separated item') := by
  have hbounded (bound : Nat) :
      AgreeUpTo count (separatedUpTo item bound) (separatedUpTo item' bound) := by
    induction bound with
    | zero => exact .refl _
    | succ bound ih =>
        exact .after (ask_behaves _).goesOnward fun _ => agree_ite (.refl _)
          (.bind hitem honward.goesOnward fun _ => .after (ask_behaves _).goesOnward fun _ =>
            agree_ite (.after advance_behaves.goesOnward fun _ => .bind ih
              (separatedUpTo_behaves honward bound).goesOnward fun _ => .refl _) (.refl _))
  exact fun s => hbounded s.ahead.length s

theorem unlessClosed_agree : AgreeUpTo count (unlessClosed item) (unlessClosed item') :=
  .after (ask_behaves _).goesOnward fun _ => agree_ite
    (.bind hitem honward.goesOnward fun _ => .refl _) (.refl _)

end

theorem eq_of_levels (within : Nat → Parser α) {step : Parser α → Parser α}
    (hsucc : ∀ levels, within (levels + 1) = step (within levels))
    (hzero : ∀ (s : State) (nested : Parser α), s.ahead = [] → within 0 s = step nested s)
    (hstep : ∀ {count levels : Nat} {nested}, AgreeUpTo count (within levels) nested →
      AgreeUpTo (count + 1) (step (within levels)) (step nested)) :
    (∀ {levels levels' : Nat}, levels ≤ levels' →
      AgreeUpTo levels (within levels) (within levels')) ∧
    (fun s => within s.ahead.length s) = step fun s => within s.ahead.length s := by
  have hbound := unbounded within step hsucc hzero fun s levels nested h => by
    cases hahead : s.ahead with
    | nil => exact (hzero s _ hahead).symm.trans (hzero s _ hahead)
    | cons token rest =>
        have hagree : AgreeUpTo rest.length (within levels) nested := fun s' hs =>
          h s' (by rw [hahead, length_cons]; exact Nat.lt_succ_of_le hs)
        exact hstep hagree s (by simp [hahead])
  exact ⟨fun hle s hs => hbound.1 hs hle, funext hbound.2⟩

end Agreement

end Parser

end ContractAudit
