import ContractAudit.Proofs.Parse.Run
import ContractAudit.Proofs.Token.Lexical

/-!
# What parsers take

`Takes` says that a parser, run where some tokens are next, reads exactly these tokens, records no
error and gives a value of a kind, whatever comes after them or, for a parser that needs to know
what comes next, if that meets a condition. `Reads` says so of all tokens that some signs can be
written as. A repetition takes any number of items, since each of them has a token and the bound on
the repetition counts tokens.
-/

namespace ContractAudit

open Parse List

namespace Parser

variable {α β : Type} {s : State} {make : NodeInfo → α} {first item : Parser α}
  {question : State → β} {gives : α → Prop} {gives' : β → Prop} {token closing : Token}
  {tokens inner rest : List Token} {follow follow' : List Token → Prop} {next : α → Parser β}
  {start : Location} (what : String) (answer : β)

/-- Tokens of a text, without its end. -/
def Scanned (tokens : List Token) : Prop :=
  ∀ token ∈ tokens, token.Lexical ∧ token.kind.isGap = false ∧ token.kind ≠ .endOfInput

theorem Scanned.lexical (h : Scanned tokens) : Lexical tokens :=
  fun token htoken => (h token htoken).1

theorem scanned_append {first second} :
    Scanned (first ++ second) ↔ Scanned first ∧ Scanned second :=
  forall_mem_append

theorem ofTokens_of_scanned (h : Scanned tokens) : (State.ofTokens tokens).ahead = tokens := by
  have hkept : tokens.filter (fun token => !token.kind.isGap) = tokens :=
    filter_eq_self.mpr fun token htoken => by simp [(h token htoken).2.1]
  have hahead : tokens.takeWhile (fun token => token.kind ≠ .endOfInput) = tokens :=
    takeWhile_eq_self_iff.mpr fun token htoken => by simpa using (h token htoken).2.2
  rw [ahead_ofTokens, hahead, hkept]

/-- Where some tokens are next, with others behind them that meet a condition, a parser reads just
these tokens, without errors. -/
def Takes (parser : Parser α) (tokens : List Token) (follow : List Token → Prop)
    (gives : α → Prop) : Prop :=
  ∀ ⦃s : State⦄ ⦃rest : List Token⦄, Scanned tokens → s.ahead = tokens ++ rest → follow rest →
    ∃ value s', parser s = .done value s' ∧ gives value ∧ s'.ahead = rest ∧ s'.errors = s.errors

/-! ## Rules -/

section

variable (h : Takes first tokens follow gives)

include h

theorem Takes.imp {gives' : α → Prop} (himp : ∀ value, gives value → gives' value) :
    Takes first tokens follow gives' := by
  intro s rest hscanned hahead hfollow
  obtain ⟨value, s', hrun, hgives, hrest, herrors⟩ := h hscanned hahead hfollow
  exact ⟨value, s', hrun, himp value hgives, hrest, herrors⟩

theorem Takes.mono (hfollow : ∀ rest, follow' rest → follow rest) :
    Takes first tokens follow' gives :=
  fun _ rest hscanned hahead hrest => h hscanned hahead (hfollow rest hrest)

theorem Takes.bind (hnext : ∀ value, gives value → Takes (next value) inner follow' gives')
    (hfollow : ∀ rest, follow' rest → follow (inner ++ rest)) :
    Takes (first >>= next) (tokens ++ inner) follow' gives' := by
  intro s rest hscanned hahead hrest
  rw [scanned_append] at hscanned
  rw [append_assoc] at hahead
  obtain ⟨value, s₁, hrun, hvalue, hahead₁, herrors₁⟩ := h hscanned.1 hahead (hfollow rest hrest)
  obtain ⟨found, s', hrun', hfound, hahead', herrors⟩ :=
    hnext value hvalue hscanned.2 hahead₁ hrest
  exact ⟨found, s', (bind_run_of_done hrun).trans hrun', hfound, hahead', herrors.trans herrors₁⟩

/-- What comes last reads nothing. -/
theorem Takes.bind_nil (hnext : ∀ value, gives value → Takes (next value) [] follow gives') :
    Takes (first >>= next) tokens follow gives' := by
  rw [← append_nil tokens]
  exact h.bind hnext fun _ hrest => hrest

end

theorem takes_of_scanned (h : Scanned tokens → Takes first tokens follow gives) :
    Takes first tokens follow gives :=
  fun _ _ hscanned => h hscanned hscanned

theorem pure_takes {value : α} (h : gives value) : Takes (pure value) [] follow gives :=
  fun s _ _ hahead _ => ⟨value, s, rfl, h, hahead, rfl⟩

theorem node_takes (h : ∀ info, gives (make info)) :
    Takes (do pure (make (← infoFrom start))) [] follow gives :=
  fun _ _ _ hahead _ => ⟨_, _, rfl, h _, hahead, rfl⟩

theorem advance_bind_takes {next} (h : Takes (next token) tokens follow gives) :
    Takes (advance >>= next) (token :: tokens) follow gives := by
  intro s rest hscanned hahead hfollow
  have hadvance : s.advance.ahead = tokens ++ rest := State.ahead_advance hahead
  rw [advance_bind_run, State.current_eq hahead]
  obtain ⟨value, s', hrun, hgives, hahead', herrors⟩ :=
    h (fun other hother => hscanned other (mem_cons_of_mem token hother)) hadvance hfollow
  exact ⟨value, s', hrun, hgives, hahead', herrors.trans s.advance_errors⟩

theorem ask_bind_takes {next}
    (hanswer : ∀ ⦃s : State⦄ ⦃rest : List Token⦄, Scanned tokens → s.ahead = tokens ++ rest →
      follow rest → question s = answer) (h : Takes (next answer) tokens follow gives) :
    Takes (ask question >>= next) tokens follow gives := by
  intro s rest hscanned hahead hfollow
  rw [ask_bind_run, hanswer hscanned hahead hfollow]
  exact h hscanned hahead hfollow

theorem ask_bind_takes_of_forall {next} (h : ∀ answer, Takes (next answer) tokens follow gives) :
    Takes (ask question >>= next) tokens follow gives :=
  fun s _ hscanned hahead hfollow => h (question s) hscanned hahead hfollow

theorem peek_bind_takes {next} (h : Takes (next token) (token :: tokens) follow gives) :
    Takes (peek >>= next) (token :: tokens) follow gives :=
  ask_bind_takes token (fun _ _ _ hahead _ => State.current_eq hahead) h

theorem close_takes (hclosing : closing.kind = .rightParen) :
    Takes (close what) [closing] follow fun _ => True := by
  intro s rest _ hahead _
  have hsees : s.sees .rightParen = true :=
    State.sees_iff.mpr (by rw [State.current_eq hahead, hclosing])
  exact ⟨(), s.advance, by rw [close_run, if_pos hsees], trivial, State.ahead_advance hahead,
    s.advance_errors⟩

theorem closeNode_takes {what} (hclosing : closing.kind = .rightParen)
    (h : ∀ info, gives (make info)) :
    Takes (do
      close what
      pure (make (← infoFrom start))) [closing] follow gives :=
  (close_takes what hclosing).bind_nil fun _ _ => node_takes h

theorem span_takes {make : Span → α} (h : ∀ span, gives (make span)) :
    Takes (do pure (make (← spanFrom start))) [] follow gives :=
  fun _ _ _ hahead _ => ⟨_, _, rfl, h _, hahead, rfl⟩

theorem expect_takes (message : String) :
    Takes (expect token.kind message) [token] follow (· = true) :=
  ask_bind_takes true (fun _ _ _ hahead _ => State.sees_iff.mpr (by rw [State.current_eq hahead]))
    (advance_bind_takes (pure_takes rfl))

theorem expectName_takes (hname : token.kind.isName = true) :
    Takes (expectName what) [token] follow (· = token.value) := by
  refine peek_bind_takes ?_
  rw [if_pos hname]
  exact advance_bind_takes (pure_takes rfl)

/-! ## Items in a row -/

def Continued (tokens : List Token) : Prop :=
  ∃ first more, tokens = first :: more ∧ first.kind ≠ .rightParen ∧ first.kind ≠ .endOfInput

def Closed (tokens : List Token) : Prop :=
  ∃ closing more, tokens = closing :: more ∧ closing.kind = .rightParen

theorem Continued.append (h : Continued tokens) (rest : List Token) :
    Continued (tokens ++ rest) := by
  obtain ⟨first, more, rfl, hkind⟩ := h
  exact ⟨first, more ++ rest, rfl, hkind⟩

theorem Continued.inBody (h : Continued s.ahead) : s.inBody = true := by
  obtain ⟨first, more, hahead, hkind, _⟩ := h
  exact State.inBody_iff.mpr ⟨first, more, hahead, hkind⟩

theorem Closed.inBody (h : Closed s.ahead) : s.inBody = false := by
  obtain ⟨closing, more, hahead, hkind⟩ := h
  simp [State.inBody, State.sees, State.current_eq hahead, hkind]

theorem Closed.sees_leftParen (h : Closed s.ahead) : s.sees .leftParen = false := by
  obtain ⟨closing, more, hahead, hkind⟩ := h
  simp [State.sees, State.current_eq hahead, hkind]

theorem unlessClosed_takes {follow : List Token → Prop}
    (hcontinued : Scanned tokens → Continued tokens) (h : Takes item tokens follow gives) :
    Takes (unlessClosed item) tokens follow fun found =>
      ∃ value, found = some value ∧ gives value :=
  ask_bind_takes true (fun _ rest hscanned hahead _ =>
      Continued.inBody (by rw [hahead]; exact (hcontinued hscanned).append rest))
    (h.bind_nil fun value hvalue => pure_takes ⟨value, rfl, hvalue⟩)

theorem unlessClosed_closed : Takes (unlessClosed item) [] Closed (· = none) :=
  ask_bind_takes false (fun _ _ _ hahead hclosed => Closed.inBody (by rwa [hahead]))
    (pure_takes rfl)

/-- Tokens in front of which a repetition goes on. -/
def Starts (condition : State → Bool) (tokens : List Token) : Prop :=
  tokens ≠ [] ∧ ∀ (s : State) (rest : List Token), s.ahead = tokens ++ rest → condition s = true

theorem Continued.starts (h : Continued tokens) : Starts State.inBody tokens := by
  refine ⟨?_, fun s rest hahead => Continued.inBody (by rw [hahead]; exact h.append rest)⟩
  obtain ⟨first, more, rfl, _⟩ := h
  exact cons_ne_nil first more

theorem starts_leftParen (h : token.kind = .leftParen) :
    Starts (·.sees .leftParen) (token :: rest) :=
  ⟨cons_ne_nil _ _, fun _ _ hahead => State.sees_iff.mpr (by rw [State.current_eq hahead, h])⟩

/-- A repetition that may go round once for each token takes the tokens of all its items. -/
def TakesAll (condition : State → Bool) (item : Parser α) (tokens : List Token)
    (follow : List Token → Prop) (gives : List α → Prop) : Prop :=
  ∀ bound, tokens.length ≤ bound → Takes (repeatUpTo condition item bound) tokens follow gives

section Items

variable {γ : Type} {view : α → γ} {value : γ} {values : List γ} {condition : State → Bool}

theorem takesAll_nil (hstop : ∀ s : State, follow s.ahead → condition s = false) :
    TakesAll condition item [] follow (·.map view = []) := by
  intro bound _
  cases bound with
  | zero => exact pure_takes rfl
  | succ bound =>
      exact ask_bind_takes false (fun s _ _ hahead hrest => hstop s (by rwa [hahead]))
        (pure_takes rfl)

theorem TakesAll.cons (hstarts : Scanned tokens → Starts condition tokens)
    (hitem : Takes item tokens follow (view · = value))
    (hfollow : ∀ more, follow' more → follow (rest ++ more))
    (hrest : TakesAll condition item rest follow' (·.map view = values)) :
    TakesAll condition item (tokens ++ rest) follow' (·.map view = value :: values) := by
  refine fun bound hbound => takes_of_scanned fun hscanned => ?_
  obtain ⟨hne, hcondition⟩ := hstarts (scanned_append.mp hscanned).1
  have hpos := length_pos_iff.mpr hne
  rw [length_append] at hbound
  obtain ⟨bound, rfl⟩ : ∃ n, bound = n + 1 := ⟨bound - 1, by omega⟩
  refine ask_bind_takes true (fun s more _ hahead _ => hcondition s (rest ++ more) ?_) ?_
  · rw [hahead, append_assoc]
  · refine hitem.bind (fun first hvalue => ?_) hfollow
    refine (hrest bound (by omega)).bind_nil fun others hothers => pure_takes ?_
    rw [map_cons, hvalue, hothers]

theorem TakesAll.repeatWhile {gives : List α → Prop}
    (h : TakesAll condition item tokens follow gives) :
    Takes (repeatWhile condition item) tokens follow gives := by
  intro s rest hscanned hahead
  exact h s.ahead.length (by simp [hahead]) hscanned hahead

end Items

/-! ## Signs -/

/-- A way of writing signs as tokens, those of one sign behind those of another. -/
structure Script (σ : Type) where
  writes : List σ → List Token → Prop
  nil : ∀ {tokens}, writes [] tokens → tokens = []
  append : ∀ {signs later : List σ} {tokens}, writes (signs ++ later) tokens →
    ∃ used rest, tokens = used ++ rest ∧ writes signs used ∧ writes later rest

section Signs

variable {σ : Type} {script : Script σ} {sign : σ} {signs later : List σ} {given : Token → Prop}

/-- However some signs are written, a parser takes their tokens. -/
def Reads (script : Script σ) (follow : List Token → Prop) (parser : Parser α) (signs : List σ)
    (gives : α → Prop) : Prop :=
  ∀ ⦃tokens : List Token⦄, script.writes signs tokens → Takes parser tokens follow gives

theorem Reads.imp {gives' : α → Prop} (h : Reads script follow first signs gives)
    (himp : ∀ value, gives value → gives' value) : Reads script follow first signs gives' :=
  fun _ htokens => (h htokens).imp himp

theorem Reads.mono (h : Reads script follow first signs gives)
    (hfollow : ∀ rest, follow' rest → follow rest) : Reads script follow' first signs gives :=
  fun _ htokens => (h htokens).mono hfollow

theorem Reads.bindWhen (h : Reads script follow first signs gives)
    (hfollow : ∀ tokens rest, script.writes later tokens → follow' rest → follow (tokens ++ rest))
    (hnext : ∀ value, gives value → Reads script follow' (next value) later gives') :
    Reads script follow' (first >>= next) (signs ++ later) gives' := by
  intro tokens htokens
  obtain ⟨used, rest, rfl, hused, hrest⟩ := script.append htokens
  exact (h hused).bind (fun value hvalue => hnext value hvalue hrest)
    fun more => hfollow rest more hrest

theorem Reads.bind (h : Reads script (fun _ => True) first signs gives)
    (hnext : ∀ value, gives value → Reads script follow (next value) later gives') :
    Reads script follow (first >>= next) (signs ++ later) gives' :=
  h.bindWhen (fun _ _ _ _ => trivial) hnext

theorem Reads.bind_nil (h : Reads script follow first signs gives)
    (hnext : ∀ value, gives value → Takes (next value) [] follow gives') :
    Reads script follow (first >>= next) signs gives' :=
  fun _ htokens => (h htokens).bind_nil hnext

theorem reads_nil (h : Takes first [] follow gives) : Reads script follow first [] gives := by
  intro tokens htokens
  rw [script.nil htokens]
  exact h

theorem ask_bind_reads {next}
    (hanswer : ∀ (s : State) tokens rest, script.writes signs tokens → s.ahead = tokens ++ rest →
      follow rest → question s = answer) (hnext : Reads script follow (next answer) signs gives) :
    Reads script follow (ask question >>= next) signs gives :=
  fun tokens htokens => ask_bind_takes answer
    (fun s rest _ hahead hrest => hanswer s tokens rest htokens hahead hrest) (hnext htokens)

theorem ask_any_reads {next} (h : ∀ answer, Reads script follow (next answer) signs gives) :
    Reads script follow (ask question >>= next) signs gives :=
  fun _ htokens => ask_bind_takes_of_forall fun answer => h answer htokens

/-- A sign that is one token. -/
def Script.Single (script : Script σ) (sign : σ) (given : Token → Prop) : Prop :=
  ∀ ⦃tokens⦄, script.writes [sign] tokens → ∃ token, tokens = [token] ∧ given token

theorem Script.Single.uncons (h : script.Single sign given)
    (htokens : script.writes (sign :: signs) tokens) :
    ∃ token rest, tokens = token :: rest ∧ given token ∧ script.writes signs rest := by
  obtain ⟨used, rest, rfl, hused, hrest⟩ :=
    script.append (show script.writes ([sign] ++ signs) tokens from htokens)
  obtain ⟨token, rfl, hgiven⟩ := h hused
  exact ⟨token, rest, rfl, hgiven, hrest⟩

theorem peek_bind_reads {next} (h : script.Single sign given)
    (hnext : ∀ token, given token → Reads script follow (next token) (sign :: signs) gives) :
    Reads script follow (peek >>= next) (sign :: signs) gives := by
  intro tokens htokens
  obtain ⟨token, rest, rfl, hgiven, _⟩ := h.uncons htokens
  exact peek_bind_takes (hnext token hgiven htokens)

theorem advance_bind_reads {next} (h : script.Single sign given)
    (hnext : ∀ token, given token → Reads script follow (next token) signs gives) :
    Reads script follow (advance >>= next) (sign :: signs) gives := by
  intro tokens htokens
  obtain ⟨token, rest, rfl, hgiven, hrest⟩ := h.uncons htokens
  exact advance_bind_takes (hnext token hgiven hrest)

theorem Script.Single.reads (h : script.Single sign given)
    (hfirst : ∀ token, given token → Takes first [token] follow gives) :
    Reads script follow first [sign] gives := by
  intro tokens htokens
  obtain ⟨token, rfl, hgiven⟩ := h htokens
  exact hfirst token hgiven

theorem Reads.bindClosed (h : Reads script Closed first signs gives)
    (hclosing : script.Single sign (·.kind = .rightParen))
    (hnext : ∀ value, gives value → Reads script follow (next value) (sign :: later) gives') :
    Reads script follow (first >>= next) (signs ++ sign :: later) gives' := by
  refine h.bindWhen (fun tokens rest htokens _ => ?_) hnext
  obtain ⟨token, more, rfl, hkind, _⟩ := hclosing.uncons htokens
  exact ⟨token, more ++ rest, rfl, hkind⟩

end Signs

end Parser

end ContractAudit
