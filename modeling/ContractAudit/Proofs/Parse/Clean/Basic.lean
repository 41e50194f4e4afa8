import ContractAudit.Proofs.Parse.Onward
import ContractAudit.Proofs.Parse.Spelling
import ContractAudit.Proofs.Token.Lexical

/-!
# Runs without errors

A run that ends without errors had none before, and the tokens that it read spell the value it
gives. If it stops before a closing bracket, it has looked at no token behind that bracket, so that
the same tokens are read in the same way elsewhere: with other tokens behind them, other nodes
counted before and other errors recorded. `Follows` says so of a parser, paired with the one that
runs elsewhere. How the value, its spelling, the other value and the errors of the other run are
related is kept open, so that the rules compose: what two parsers in a row read and record stands in
a row. A parser that reads a closing bracket of its own at its end is `Whole`: its runs may stop
anywhere.
-/

namespace ContractAudit

open Parse Lexeme List Scan Nat

variable {c : Char} {token : Token} {kind : TokenKind}

theorem Token.Lexical.eq_of_punctuation (h : token.Lexical) (hc : punctuation? c = some kind)
    (hkind : token.kind = kind) : token.lexeme = ⟨kind, String.ofList [c]⟩ := by
  subst hkind
  simp [Token.lexeme, h.punctuation c hc]

theorem Token.Lexical.eq_word (h : token.Lexical) (hname : token.kind.isName = true) :
    IsName token.value ∧ token.lexeme = .word token.value := by
  have hkind := h.word hname
  exact ⟨by rw [IsName, hkind, hname], by simp [Token.lexeme, Lexeme.word, hkind]⟩

namespace Parse.State

variable {s s' t : State} {id : Nat} {past : List Diagnostic}

/-! ## Elsewhere -/

/-- The state at the same tokens elsewhere: those of another state stand behind, nodes are counted
from a number on, and there are other errors. -/
def elsewhere (s t : State) (id : Nat) (errors : List Diagnostic) : State :=
  { t with
    previous := s.previous
    ahead := s.ahead ++ t.ahead
    live := forall_mem_append.mpr ⟨s.live, t.live⟩
    nextId := id
    errors := errors }

section

variable (h : s.ahead ≠ [])

include h

theorem elsewhere_current : (s.elsewhere t id past).current = s.current := by
  obtain ⟨token, rest, hahead⟩ := exists_cons_of_ne_nil h
  simp [current_headD, elsewhere, hahead]

theorem elsewhere_sees (kind : TokenKind) : (s.elsewhere t id past).sees kind = s.sees kind := by
  rw [sees, elsewhere_current h]
  rfl

theorem elsewhere_atEnd : (s.elsewhere t id past).atEnd = s.atEnd := by
  obtain ⟨token, rest, hahead⟩ := exists_cons_of_ne_nil h
  simp [atEnd_eq_isEmpty, elsewhere, hahead]

theorem elsewhere_inBody : (s.elsewhere t id past).inBody = s.inBody := by
  rw [inBody, elsewhere_sees h, elsewhere_atEnd h]
  rfl

theorem elsewhere_advance : (s.elsewhere t id past).advance = s.advance.elsewhere t id past := by
  obtain ⟨token, rest, hahead⟩ := exists_cons_of_ne_nil h
  have helsewhere : (s.elsewhere t id past).ahead = token :: (rest ++ t.ahead) := by
    simp [elsewhere, hahead]
  rw [advance_eq hahead, advance_eq helsewhere]
  rfl

end

def Anchored (s : State) : Prop :=
  ∃ token ∈ s.ahead, token.kind = .rightParen ∨ token.kind = .rightBrace

def Closing (s : State) : Prop :=
  s.sees .rightParen = true

def BraceClosing (s : State) : Prop :=
  s.sees .rightBrace = true

theorem Anchored.of_onward (honward : s.Onward s') (h : s'.Anchored) : s.Anchored := by
  obtain ⟨token, htoken, hkind⟩ := h
  exact ⟨token, honward.ahead.subset htoken, hkind⟩

theorem Anchored.ne_nil (h : s.Anchored) : s.ahead ≠ [] := by
  obtain ⟨token, htoken, _⟩ := h
  exact ne_nil_of_mem htoken

theorem anchored_of_current
    (h : s.current.kind = .rightParen ∨ s.current.kind = .rightBrace) : s.Anchored := by
  have hne : s.current.kind ≠ .endOfInput := by rcases h with h | h <;> simp [h]
  obtain ⟨rest, hahead⟩ := ahead_of_current hne
  exact ⟨s.current, hahead ▸ mem_cons_self, h⟩

theorem Closing.anchored (h : s.Closing) : s.Anchored :=
  anchored_of_current (.inl (sees_iff.mp h))

theorem BraceClosing.anchored (h : s.BraceClosing) : s.Anchored :=
  anchored_of_current (.inr (sees_iff.mp h))

theorem elsewhere_second (h : s.Anchored) (hparen : s.current.kind ≠ .rightParen)
    (hbrace : s.current.kind ≠ .rightBrace) : (s.elsewhere t id past).second = s.second := by
  obtain ⟨token, htoken, hright⟩ := h
  match hahead : s.ahead with
  | [] => simp [hahead] at htoken
  | [first] =>
      rw [hahead, mem_singleton] at htoken
      rw [current_eq hahead, ← htoken] at hparen hbrace
      exact absurd hright (not_or.mpr ⟨hparen, hbrace⟩)
  | first :: second :: rest =>
      have helsewhere : (s.elsewhere t id past).ahead = first :: second :: (rest ++ t.ahead) := by
        simp [elsewhere, hahead]
      rw [second_eq hahead, second_eq helsewhere]

end Parse.State

namespace Parser

open State

variable {α β γ : Type} {s s₁ s' : State} {given keep mid : State → Prop} {message : String}
  {value found : α} {question : State → γ} {yes' yes no' no : Parser α} {start : Location}
  (what : String)

/-- A run that ends without errors has none before. -/
theorem clean_of_onward (h : s₁.Onward s') (hclean : s'.errors = []) : s₁.errors = [] := by
  have hprefix := h.errors
  rw [hclean] at hprefix
  exact prefix_nil.mp hprefix

theorem lexical_of_onward (h : s.Onward s') (hlex : Lexical s.ahead) : Lexical s'.ahead :=
  fun token htoken => hlex token (h.ahead.subset htoken)

/-! ## Runs that record errors -/

/-- A parser that records an error whenever it ends with a value. -/
def Dirty (parser : Parser α) : Prop :=
  ∀ ⦃s value s'⦄, parser s = .done value s' → s'.errors ≠ []

theorem Dirty.after {first} {next : β → Parser α} (h : ∀ value, Dirty (next value)) :
    Dirty (first >>= next) := by
  intro s value s' hrun
  obtain ⟨middle, s₁, _, hrest⟩ := bind_eq_done.mp hrun
  exact h middle hrest

theorem report_dirty {code : Code} {location} {next : Unit → Parser α}
    (hnext : ∀ answer, Orderly (next answer)) : Dirty (report code message location >>= next) := by
  intro s value s' hrun hclean
  obtain ⟨_, s₁, hreport, hrest⟩ := bind_eq_done.mp hrun
  cases hreport
  simpa using clean_of_onward ((hnext ()).done hrest) hclean

theorem reportHere_dirty {next : Unit → Parser α} (hnext : ∀ answer, Orderly (next answer)) :
    Dirty (reportHere message >>= next) :=
  fun _ _ _ hrun => report_dirty hnext hrun

/-! ## Following -/

/-- Some tokens are read. -/
structure Took (s : State) (used : List Token) (s' : State) : Prop where
  ahead : s.ahead = used ++ s'.ahead
  previous : s'.previous = used.getLastD s.previous

theorem Took.refl (s : State) : Took s [] s :=
  ⟨rfl, rfl⟩

theorem Took.trans {used more} (h : Took s used s₁) (h' : Took s₁ more s') :
    Took s (used ++ more) s' where
  ahead := by rw [h.ahead, h'.ahead, append_assoc]
  previous := by
    rw [h'.previous, h.previous]
    simp [getLastD_eq_getLast?, getLast?_append, Option.getD_or]

/-- What a value, its spelling, the value that stands for it elsewhere and the errors there have to
do with each other. -/
abbrev Relation (α : Type) : Type :=
  α → List Lexeme → α → List Diagnostic → Prop

/-- A run without errors from a state as given to one where `keep` holds. -/
structure Runs (given keep : State → Prop) (parser : Parser α) (s : State) (value : α)
    (s' : State) : Prop where
  given : given s
  lexical : Lexical s.ahead
  done : parser s = .done value s'
  clean : s'.errors = []
  kept : keep s'

theorem Runs.of_done {parser parser'} (h : Runs given keep parser s value s')
    (hdone : parser' s = .done value s') : Runs given keep parser' s value s' :=
  ⟨h.given, h.lexical, hdone, h.clean, h.kept⟩

/-- Runs without errors of the first parser start before a closing bracket, and the second parser
reads the same tokens elsewhere. If the nodes have to be counted from the same number on, they have
the same numbers. -/
structure FollowsWhen (numbered : Prop) (given keep : State → Prop) (related : Relation α)
    (parser follower : Parser α) : Prop where
  onward : GoesOnward parser
  anchored : ∀ ⦃s value s'⦄, Runs given keep parser s value s' → s.Anchored
  follow : ∀ ⦃s value s'⦄ (t : State) (id : Nat) (past : List Diagnostic),
    Runs given keep parser s value s' → (numbered → id = s.nextId) →
    ∃ used found id' errors, Took s used s' ∧ related value (lexemes used) found errors ∧
      (numbered → id' = s'.nextId) ∧
      follower (s.elsewhere t id past) = .done found (s'.elsewhere t id' (past ++ errors))

/-- Runs without errors that stop before a closing bracket are followed elsewhere. -/
def Follows (numbered : Prop) (related : Relation α) (parser follower : Parser α) : Prop :=
  FollowsWhen numbered (fun _ => True) Anchored related parser follower

def Whole (numbered : Prop) (related : Relation α) (parser follower : Parser α) : Prop :=
  FollowsWhen numbered (fun _ => True) (fun _ => True) related parser follower

def Same (spell : α → List Lexeme → Prop) : Relation α :=
  fun value used found errors => found = value ∧ errors = [] ∧ spell value used

variable {numbered : Prop} {related : Relation α} {related' : Relation β}
    {parser follower : Parser α}
  {spell : α → List Lexeme → Prop}

/-! ## Rules -/

theorem FollowsWhen.mono {given' keep' : State → Prop}
    (h : FollowsWhen numbered given keep related parser follower)
    (hgiven : ∀ s, given' s → given s) (hkeep : ∀ s, keep' s → keep s) :
    FollowsWhen numbered given' keep' related parser follower where
  onward := h.onward
  anchored := fun _ _ _ hrun => h.anchored
    ⟨hgiven _ hrun.given, hrun.lexical, hrun.done, hrun.clean, hkeep _ hrun.kept⟩
  follow := fun _ _ _ t id past hrun => h.follow t id past
    ⟨hgiven _ hrun.given, hrun.lexical, hrun.done, hrun.clean, hkeep _ hrun.kept⟩

theorem Follows.when (h : Follows numbered related parser follower)
    (hkeep : ∀ s, keep s → s.Anchored) : FollowsWhen numbered given keep related parser follower :=
  h.mono (fun _ _ => trivial) hkeep

theorem Whole.when (h : Whole numbered related parser follower) :
    FollowsWhen numbered given keep related parser follower :=
  h.mono (fun _ _ => trivial) fun _ _ => trivial

theorem FollowsWhen.imp {weaker} (h : FollowsWhen numbered given keep related parser follower)
    (himp : ∀ value used found errors, related value used found errors →
      weaker value used found errors) : FollowsWhen numbered given keep weaker parser follower where
  onward := h.onward
  anchored := h.anchored
  follow := fun s value s' t id past hrun hid => by
    obtain ⟨used, found, id', errors, htook, hrelated, hrest⟩ := h.follow t id past hrun hid
    exact ⟨used, found, id', errors, htook, himp _ _ _ _ hrelated, hrest⟩

section Bind

variable {first first' : Parser α} {next next' : α → Parser β}

theorem FollowsWhen.bind_between (after : α → State → Prop)
    (hfirst : FollowsWhen numbered given mid related first first')
    (honward : ∀ value, GoesOnward (next value))
    (hmid : ∀ ⦃s value s₁ x s'⦄, Runs given (fun _ => True) first s value s₁ →
      Runs (fun _ => True) keep (next value) s₁ x s' → mid s₁)
    (hafter : ∀ ⦃s value s₁⦄, Runs given mid first s value s₁ → after value s₁)
    (hnext : ∀ value used found errors, related value used found errors →
      FollowsWhen numbered (after value) keep
        (fun x later y more => related' x (used ++ later) y (errors ++ more)) (next value)
        (next' found)) :
    FollowsWhen numbered given keep related' (first >>= next) (first' >>= next') := by
  have hsplit ⦃s x s'⦄ (hrun : Runs given keep (first >>= next) s x s') :
      ∃ value s₁, Runs given mid first s value s₁ ∧
        Runs (after value) keep (next value) s₁ x s' := by
    -- From the end: only there it is known that there are no errors.
    obtain ⟨value, s₁, hvalue, hrest⟩ := bind_eq_done.mp hrun.done
    have hlex := lexical_of_onward (hfirst.onward hvalue) hrun.lexical
    have hclean := clean_of_onward (honward value hrest) hrun.clean
    have hruns : Runs given mid first s value s₁ :=
      ⟨hrun.given, hrun.lexical, hvalue, hclean, hmid
        ⟨hrun.given, hrun.lexical, hvalue, hclean, trivial⟩
        ⟨trivial, hlex, hrest, hrun.clean, hrun.kept⟩⟩
    exact ⟨value, s₁, hruns, hafter hruns, hlex, hrest, hrun.clean, hrun.kept⟩
  refine ⟨hfirst.onward.bind honward, fun s x s' hrun => ?_, fun s x s' t id past hrun hid => ?_⟩
  · obtain ⟨value, s₁, hvalue, _⟩ := hsplit hrun
    exact hfirst.anchored hvalue
  · obtain ⟨value, s₁, hvalue, hlater⟩ := hsplit hrun
    obtain ⟨used, found, id₁, errors, htook, hrelated, hid₁, hfound⟩ :=
      hfirst.follow t id past hvalue hid
    obtain ⟨later, y, id', more, htook', hrelated', hid', hy⟩ :=
      (hnext value _ found errors hrelated).follow t id₁ (past ++ errors) hlater hid₁
    rw [append_assoc] at hy
    refine ⟨used ++ later, y, id', errors ++ more, htook.trans htook', ?_, hid',
      bind_eq_done.mpr ⟨found, _, hfound, hy⟩⟩
    rwa [lexemes_append]

section Related

variable (hnext : ∀ value found, FollowsWhen numbered (fun _ => True) keep (fun x later y more =>
  ∀ used errors, related value used found errors →
    related' x (used ++ later) y (errors ++ more)) (next value) (next' found))

include hnext

theorem FollowsWhen.bind_keep (hfirst : FollowsWhen numbered given mid related first first')
    (hmid : ∀ value ⦃s x s'⦄, Runs (fun _ => True) keep (next value) s x s' → mid s) :
    FollowsWhen numbered given keep related' (first >>= next) (first' >>= next') :=
  hfirst.bind_between _ (fun value => (hnext value value).onward)
    (fun _ value _ _ _ _ hrun => hmid value hrun) (fun _ _ _ _ => trivial)
    fun value used found errors hrelated => (hnext value found).imp fun _ _ _ _ h =>
      h used errors hrelated

theorem FollowsWhen.bind (hfirst : FollowsWhen numbered given Anchored related first first') :
    FollowsWhen numbered given keep related' (first >>= next) (first' >>= next') :=
  hfirst.bind_keep hnext fun value _ _ _ hrun => (hnext value value).anchored hrun

theorem Follows.bind (hfirst : Follows numbered related first first') :
    FollowsWhen numbered given keep related' (first >>= next) (first' >>= next') :=
  (hfirst.when fun _ h => h).bind hnext

end Related

section Same

variable (hnext : ∀ value, FollowsWhen numbered (fun _ => True) keep (fun x later y more =>
  ∀ used, spell value used → related' x (used ++ later) y more) (next value) (next' value))

include hnext

theorem FollowsWhen.bind_same_keep
    (hfirst : FollowsWhen numbered given mid (Same spell) first first')
    (hmid : ∀ value ⦃s x s'⦄, Runs (fun _ => True) keep (next value) s x s' → mid s) :
    FollowsWhen numbered given keep related' (first >>= next) (first' >>= next') := by
  refine hfirst.bind_between _ (fun value => (hnext value).onward)
    (fun _ value _ _ _ _ hrun => hmid value hrun) (fun _ _ _ _ => trivial) ?_
  rintro value used _ _ ⟨rfl, rfl, hspell⟩
  exact (hnext _).imp fun _ _ _ _ h => h used hspell

theorem FollowsWhen.bind_same
    (hfirst : FollowsWhen numbered given Anchored (Same spell) first first') :
    FollowsWhen numbered given keep related' (first >>= next) (first' >>= next') :=
  hfirst.bind_same_keep hnext fun value _ _ _ hrun => (hnext value).anchored hrun

theorem Follows.bind_same (hfirst : Follows numbered (Same spell) first first') :
    FollowsWhen numbered given keep related' (first >>= next) (first' >>= next') :=
  (hfirst.when fun _ h => h).bind_same hnext

end Same

end Bind

theorem follows_of_undone (honward : GoesOnward parser)
    (h : ∀ ⦃s value s'⦄, given s → parser s = .done value s' → s'.errors ≠ []) :
    FollowsWhen numbered given keep related parser follower where
  onward := honward
  anchored := fun _ _ _ hrun => absurd hrun.clean (h hrun.given hrun.done)
  follow := fun _ _ _ _ _ _ hrun => absurd hrun.clean (h hrun.given hrun.done)

theorem Dirty.follows (h : Dirty parser) (horderly : Orderly parser) :
    FollowsWhen numbered given keep related parser follower :=
  follows_of_undone horderly.goesOnward fun _ _ _ _ hrun => h hrun

theorem reportHere_follows (message : String) {next : Unit → Parser α}
    (hnext : ∀ answer, Orderly (next answer)) :
    FollowsWhen numbered given keep related (reportHere message >>= next) follower :=
  (reportHere_dirty hnext).follows (.bind (reportHere_behaves message) hnext)

theorem FollowsWhen.of_given (fact : Prop) (hfact : ∀ s, given s → fact)
    (h : FollowsWhen numbered given keep
      (fun value used found errors => fact → related value used found errors) parser follower) :
    FollowsWhen numbered given keep related parser follower where
  onward := h.onward
  anchored := h.anchored
  follow := fun s value s' t id past hrun hid => by
    obtain ⟨used, found, id', errors, htook, hrelated, hrest⟩ := h.follow t id past hrun hid
    exact ⟨used, found, id', errors, htook, hrelated (hfact s hrun.given), hrest⟩

theorem ask_bind_follows {next next'}
    (hsame : ∀ ⦃s value s'⦄ t id past, Runs given keep (next (question s)) s value s' →
      s.Anchored → question (s.elsewhere t id past) = question s)
    (hnext : ∀ answer, FollowsWhen numbered (fun s => given s ∧ question s = answer) keep related
      (next answer) (next' answer)) :
    FollowsWhen numbered given keep related (ask question >>= next) (ask question >>= next') := by
  have hrest ⦃s value s'⦄ (hrun : Runs given keep (ask question >>= next) s value s') :
      Runs (fun s₁ => given s₁ ∧ question s₁ = question s) keep (next (question s)) s value s' :=
    ⟨⟨hrun.given, rfl⟩, hrun.lexical, hrun.done, hrun.clean, hrun.kept⟩
  refine ⟨(ask_behaves question).goesOnward.bind fun answer => (hnext answer).onward,
    fun s _ _ hrun => (hnext (question s)).anchored (hrest hrun), ?_⟩
  intro s value s' t id past hrun hid
  rw [ask_bind_run, hsame t id past (hrun.of_done hrun.done)
    ((hnext (question s)).anchored (hrest hrun))]
  exact (hnext (question s)).follow t id past (hrest hrun) hid

theorem ask_ite_follows {condition}
    (hsame : ∀ ⦃s value s'⦄ t id past,
      Runs given keep (if condition s then yes else no) s value s' → s.Anchored →
      condition (s.elsewhere t id past) = condition s)
    (hyes : FollowsWhen numbered (fun s => given s ∧ condition s = true) keep related yes yes')
    (hno : FollowsWhen numbered (fun s => given s ∧ condition s = false) keep related no no') :
    FollowsWhen numbered given keep related (ask condition >>= fun answer =>
      if answer then yes else no)
      (ask condition >>= fun answer => if answer then yes' else no') := by
  refine ask_bind_follows hsame fun answer => ?_
  cases answer with
  | true => exact hyes
  | false => exact hno

theorem ask_any_follows {next next'}
    (h : ∀ answer answer', FollowsWhen numbered given keep related (next answer) (next' answer')) :
    FollowsWhen numbered given keep related (ask question >>= next) (ask question >>= next') where
  onward := (ask_behaves question).goesOnward.bind fun answer => (h answer answer).onward
  anchored := fun s _ _ hrun => (h (question s) (question s)).anchored (hrun.of_done hrun.done)
  follow := fun s _ _ t id past hrun =>
    (h (question s) (question (s.elsewhere t id past))).follow t id past (hrun.of_done hrun.done)

theorem peek_bind_follows {next next'}
    (hnext : ∀ token, FollowsWhen numbered (fun s => given s ∧ s.current = token) keep related
      (next token) (next' token)) :
    FollowsWhen numbered given keep related (peek >>= next) (peek >>= next') :=
  ask_bind_follows (fun _ _ _ _ _ _ _ hanchored => elsewhere_current hanchored.ne_nil) hnext

/-! ## Parsers that read no token -/

/-- Runs that read no token and record no error are followed anywhere. -/
def Blind (numbered : Prop) (related : α → α → Prop) (parser follower : Parser α) : Prop :=
  ∀ ⦃s value s'⦄ (t : State) (id : Nat) (past : List Diagnostic), parser s = .done value s' →
    (numbered → id = s.nextId) → s' = { s with nextId := s'.nextId } ∧ s.nextId ≤ s'.nextId ∧
    ∃ found id', related value found ∧ (numbered → id' = s'.nextId) ∧
      follower (s.elsewhere t id past) = .done found (s'.elsewhere t id' past)

namespace Blind

variable {equal : α → α → Prop} {next' next : α → Parser β}

theorem onward (h : Blind numbered equal parser follower) : GoesOnward parser := by
  intro s value s' hrun
  obtain ⟨hsame, hle, _⟩ := h s s.nextId [] hrun fun _ => rfl
  rw [hsame]
  exact .quiet (.refl _ _ _) rfl hle rfl rfl

theorem took (h : Blind numbered equal parser follower) (hrun : parser s = .done value s') :
    Took s [] s' := by
  obtain ⟨hsame, _⟩ := h s s.nextId [] hrun fun _ => rfl
  rw [hsame]
  exact ⟨rfl, rfl⟩

theorem follows (h : Blind numbered (fun value found => related value [] found []) parser follower)
    (hkeep : ∀ s, keep s → s.Anchored) :
    FollowsWhen numbered given keep related parser follower where
  onward := h.onward
  anchored := fun _ _ _ hrun => (hkeep _ hrun.kept).of_onward (h.onward hrun.done)
  follow := fun s value s' t id past hrun hid => by
    obtain ⟨_, _, found, id', hrelated, hid', hfound⟩ := h t id past hrun.done hid
    exact ⟨[], found, id', [], h.took hrun.done, hrelated, hid', by rwa [append_nil]⟩

theorem bind {equal' : β → β → Prop} (h : Blind numbered equal parser follower)
    (hnext : ∀ value found, equal value found → Blind numbered equal' (next value) (next' found)) :
    Blind numbered equal' (parser >>= next) (follower >>= next') := by
  intro s x s' t id past hrun hid
  obtain ⟨value, s₁, hvalue, hrest⟩ := bind_eq_done.mp hrun
  obtain ⟨hsame, hle, found, id₁, hequal, hid₁, hfound⟩ := h t id past hvalue hid
  obtain ⟨hsame', hle', y, id', hequal', hid', hy⟩ :=
    hnext value found hequal t id₁ past hrest hid₁
  rw [hsame] at hsame'
  exact ⟨hsame', hle.trans hle', y, id', hequal', hid', bind_eq_done.mpr ⟨found, _, hfound, hy⟩⟩

theorem bind_follows {related} (h : Blind numbered equal parser follower)
    (hgiven : ∀ s id, given s → given { s with nextId := id })
    (hnext : ∀ value found, equal value found →
      FollowsWhen numbered given keep related (next value) (next' found))
    (honward : ∀ value, GoesOnward (next value)) :
    FollowsWhen numbered given keep related (parser >>= next) (follower >>= next') := by
  have hsplit ⦃s x s'⦄ (id : Nat) (t : State) (past : List Diagnostic)
      (hrun : Runs given keep (parser >>= next) s x s') (hid : numbered → id = s.nextId) :
      ∃ value s₁ found id₁, equal value found ∧ Runs given keep (next value) s₁ x s' ∧
        Took s [] s₁ ∧ s.Onward s₁ ∧ (numbered → id₁ = s₁.nextId) ∧
        follower (s.elsewhere t id past) = .done found (s₁.elsewhere t id₁ past) := by
    obtain ⟨value, s₁, hvalue, hrest⟩ := bind_eq_done.mp hrun.done
    obtain ⟨hsame, _, found, id₁, hequal, hid₁, hfound⟩ := h t id past hvalue hid
    have honward₁ := h.onward hvalue
    refine ⟨value, s₁, found, id₁, hequal, ⟨?_, lexical_of_onward honward₁ hrun.lexical, hrest,
      hrun.clean, hrun.kept⟩, h.took hvalue, honward₁, hid₁, hfound⟩
    rw [hsame]
    exact hgiven s _ hrun.given
  refine ⟨h.onward.bind honward, fun s x s' hrun => ?_, fun s x s' t id past hrun hid => ?_⟩
  · obtain ⟨value, s₁, found, _, hequal, hruns, _, honward₁, _⟩ :=
      hsplit s.nextId s [] hrun fun _ => rfl
    exact ((hnext value found hequal).anchored hruns).of_onward honward₁
  · obtain ⟨value, s₁, found, id₁, hequal, hruns, htook, _, hid₁, hfound⟩ :=
      hsplit id t past hrun hid
    obtain ⟨used, y, id', errors, htook', hrelated, hid', hy⟩ :=
      (hnext value found hequal).follow t id₁ past hruns hid₁
    exact ⟨used, y, id', errors, htook.trans htook', hrelated, hid',
      bind_eq_done.mpr ⟨found, _, hfound, hy⟩⟩

end Blind

theorem pure_blind {equal : α → α → Prop} (h : equal value found) :
    Blind numbered equal (pure value) (pure found) := by
  intro s _ s' t id past hrun hid
  cases hrun
  exact ⟨rfl, le_refl _, found, id, h, hid, rfl⟩

theorem node_blind {equal : α → α → Prop} {make make' : NodeInfo → α}
    (h : ∀ finish id id', (numbered → id' = id) →
      equal (make ⟨⟨start, finish⟩, id⟩) (make' ⟨⟨start, finish⟩, id'⟩)) :
    Blind numbered equal (do pure (make (← infoFrom start)))
      (do pure (make' (← infoFrom start))) := by
  intro s _ s' t id past hrun hid
  cases hrun
  exact ⟨rfl, le_succ _, _, id + 1, h s.previous.finish s.nextId id hid,
    fun hnumbered => by rw [hid hnumbered], rfl⟩

theorem span_blind {equal : α → α → Prop} {make make' : Span → α}
    (h : ∀ span, equal (make span) (make' span)) :
    Blind numbered equal (do pure (make (← spanFrom start)))
      (do pure (make' (← spanFrom start))) := by
  intro s _ s' t id past hrun hid
  cases hrun
  exact ⟨rfl, le_refl _, _, id, h _, hid, rfl⟩

theorem pure_follows (hkeep : ∀ s, keep s → s.Anchored) (h : related value [] found []) :
    FollowsWhen numbered given keep related (pure value) (pure found) :=
  (pure_blind h).follows hkeep

theorem FollowsWhen.thenPure {first first'} {make make' : α → β}
    (hfirst : FollowsWhen numbered given keep related first first')
    (hkeep : ∀ s, keep s → s.Anchored)
    (h : ∀ ⦃value used found errors⦄, related value used found errors →
      related' (make value) used (make' found) errors) :
    FollowsWhen numbered given keep related' (do pure (make (← first)))
      (do pure (make' (← first'))) := by
  refine hfirst.bind_keep (fun _ _ => pure_follows hkeep fun used errors hrelated => ?_)
    fun _ _ _ _ hruns => ?_
  · simpa only [append_nil] using h hrelated
  · cases hruns.done
    exact hruns.kept

/-! ## Tokens -/

theorem advance_follows (fact : Token → Prop) (h : ∀ s, given s → fact s.current) :
    FollowsWhen numbered given Anchored (Same fun token used =>
      fact token ∧ token.Lexical ∧ used = [token.lexeme]) advance advance where
  onward := advance_behaves.goesOnward
  anchored := fun _ _ _ hrun => hrun.kept.of_onward (advance_behaves.done hrun.done)
  follow := by
    intro s token s' t id past hrun hid
    have hne := (hrun.kept.of_onward (advance_behaves.done hrun.done)).ne_nil
    obtain ⟨first, rest, hahead⟩ := exists_cons_of_ne_nil hne
    cases hrun.done
    refine ⟨[first], s.current, id, [], ?_, ⟨rfl, rfl, h s hrun.given, ?_, ?_⟩, ?_, ?_⟩
    · rw [State.advance_eq hahead]
      exact ⟨hahead, rfl⟩
    · rw [current_eq hahead]
      exact hrun.lexical first (hahead ▸ mem_cons_self)
    · rw [current_eq hahead]
      rfl
    · rw [State.advance_nextId]
      exact hid
    · rw [advance_run, elsewhere_current hne, elsewhere_advance hne, append_nil]

theorem advance_punctuation_follows (hc : punctuation? c = some kind) :
    FollowsWhen numbered (·.sees kind = true) Anchored
      (Same fun _ used => used = [⟨kind, String.ofList [c]⟩]) advance advance := by
  refine (advance_follows (·.kind = kind) fun s => sees_iff.mp).imp ?_
  rintro _ _ _ _ ⟨rfl, rfl, hkind, hlexical, rfl⟩
  exact ⟨rfl, rfl, by rw [hlexical.eq_of_punctuation hc hkind]⟩

theorem advance_open_follows : FollowsWhen numbered (·.sees .leftParen = true) Anchored
    (Same fun _ used => used = [leftParen]) advance advance :=
  advance_punctuation_follows (c := '(') rfl

theorem advance_current (h : s.current.kind ≠ .endOfInput) : s.advance.current = s.second := by
  obtain ⟨rest, hahead⟩ := State.ahead_of_current h
  rw [State.advance_eq hahead, State.second_headD hahead, State.current_headD]

theorem advance_second_follows (fact : Token → Prop) (hc : punctuation? c = some kind)
    (hgiven : ∀ s, given s → s.sees kind = true ∧ fact s.second) {next next'}
    (hnext : ∀ opening, FollowsWhen numbered (fun s => fact s.current) keep
      (fun value used found errors =>
        related value (⟨kind, String.ofList [c]⟩ :: used) found errors)
      (next opening) (next' opening)) :
    FollowsWhen numbered given keep related (advance >>= next) (advance >>= next') := by
  have hcurrent ⦃mid : State → Prop⦄ ⦃s : State⦄ ⦃opening : Token⦄ ⦃s₁ : State⦄
      (hruns : Runs given mid advance s opening s₁) : fact s₁.current := by
    obtain ⟨hsees, hfact⟩ := hgiven s hruns.given
    cases hruns.done
    rwa [advance_current]
    rw [sees_iff.mp hsees]
    rintro rfl
    unfold punctuation? at hc
    split at hc <;> simp at hc
  refine ((advance_punctuation_follows hc).mono (fun s h => (hgiven s h).1) fun _ h =>
    h).bind_between
    (fun _ s => fact s.current) (fun opening => (hnext opening).onward)
    (fun s opening s₁ _ _ hfirst hrest => (hnext opening).anchored ⟨hcurrent hfirst, hrest.lexical,
      hrest.done, hrest.clean, hrest.kept⟩) (fun _ _ _ => @hcurrent _ _ _ _) ?_
  rintro opening _ _ _ ⟨rfl, rfl, rfl⟩
  exact hnext _

theorem advance_name_follows (hname : token.kind.isName = true) :
    FollowsWhen numbered (·.current = token) Anchored
      (Same fun found used => found = token ∧ IsName token.value ∧ used = [word token.value])
      advance advance := by
  refine (advance_follows (· = token) fun s h => h).imp ?_
  rintro _ _ _ _ ⟨rfl, rfl, rfl, hlexical, rfl⟩
  obtain ⟨hisName, hword⟩ := hlexical.eq_word hname
  exact ⟨rfl, rfl, rfl, hisName, by rw [hword]⟩

theorem expect_follows (hc : punctuation? c = some kind) (message : String) :
    Follows numbered (Same fun seen used => seen = true ∧ used = [⟨kind, String.ofList [c]⟩])
      (expect kind message) (expect kind message) := by
  refine ask_ite_follows (fun _ _ _ _ _ _ _ h => elsewhere_sees h.ne_nil kind) ?_
    (reportHere_follows _ fun _ => pure_behaves _)
  refine ((advance_punctuation_follows hc).mono (fun _ h => h.2) fun _ h => h).bind_same fun _ =>
    pure_follows (fun _ h => h) ?_
  rintro _ rfl
  exact ⟨rfl, rfl, rfl, rfl⟩

theorem expectName_follows :
    Follows numbered (Same fun name used => IsName name ∧ used = [word name]) (expectName what)
      (expectName what) := by
  refine peek_bind_follows fun token => ?_
  split
  · next hname =>
      refine ((advance_name_follows hname).mono (fun _ h => h.2) fun _ h => h).bind_same fun _ =>
        pure_follows (fun _ h => h) ?_
      rintro _ ⟨rfl, hisName, rfl⟩
      exact ⟨rfl, rfl, hisName, rfl⟩
  · exact reportHere_follows _ fun _ => pure_behaves _

theorem expect_eq_done {seen : Bool} (h : expect kind message s = .done seen s')
    (hclean : s'.errors = []) : s.sees kind = true ∧ seen = true ∧ s' = s.advance := by
  rw [expect_run] at h
  split at h
  · next hsees =>
      cases h
      exact ⟨hsees, rfl, rfl⟩
  · cases h
    simp [State.reportHere] at hclean

/-- What is closed without an error sees the closing parenthesis. -/
theorem close_eq_done {what} {answer : Unit} (h : close what s = .done answer s')
    (hclean : s'.errors = []) : s.Closing ∧ s' = s.advance := by
  rw [close_run] at h
  split at h
  · next hsees =>
      cases h
      exact ⟨hsees, rfl⟩
  · cases h
    unfold unclosed at hclean
    split at hclean <;> simp [State.reportHere] at hclean

theorem Blind.closer {kind} (hc : punctuation? c = some kind)
    (hkind : kind = .rightParen ∨ kind = .rightBrace) {closer} {answer : γ}
    (honward : GoesOnward closer)
    (hdone : ∀ ⦃s found s'⦄, closer s = .done found s' → s'.errors = [] →
      s.sees kind = true ∧ s' = s.advance)
    (hrun : ∀ ⦃s⦄, s.sees kind = true → closer s = .done answer s.advance)
    (h : Blind numbered (fun value found => related value [⟨kind, String.ofList [c]⟩] found [])
      parser follower) :
    FollowsWhen numbered given keep related (closer >>= fun _ => parser)
      (closer >>= fun _ => follower) := by
  have hsplit ⦃s value s'⦄ (hruns : Runs given keep (closer >>= fun _ => parser) s value s') :
      s.sees kind = true ∧ s.Anchored ∧ parser s.advance = .done value s' := by
    obtain ⟨found, s₁, hcloser, hrest⟩ := bind_eq_done.mp hruns.done
    obtain ⟨hsees, rfl⟩ := hdone hcloser (clean_of_onward (h.onward hrest) hruns.clean)
    exact ⟨hsees, anchored_of_current (by rwa [sees_iff.mp hsees]), hrest⟩
  refine ⟨honward.bind fun _ => h.onward, fun s value s' hruns => (hsplit hruns).2.1, ?_⟩
  intro s value s' t id past hruns hid
  obtain ⟨hsees, hanchored, hrest⟩ := hsplit hruns
  obtain ⟨token, rest, hahead⟩ := exists_cons_of_ne_nil hanchored.ne_nil
  have hlexeme : token.lexeme = ⟨kind, String.ofList [c]⟩ :=
    (hruns.lexical token (hahead ▸ mem_cons_self)).eq_of_punctuation hc
      (by rw [← current_eq hahead, sees_iff.mp hsees])
  have hid₁ (hnumbered : numbered) : id = s.advance.nextId := by
    rw [State.advance_nextId, hid hnumbered]
  obtain ⟨_, _, found, id', hrelated, hid', hfound⟩ := h t id past hrest hid₁
  have htook : Took s [token] s.advance := by
    rw [State.advance_eq hahead]
    exact ⟨hahead, rfl⟩
  refine ⟨[token], found, id', [], htook.trans (h.took hrest), ?_, hid', bind_eq_done.mpr
    ⟨answer, s.advance.elsewhere t id past, ?_, by rwa [append_nil]⟩⟩
  · rwa [lexemes_cons, hlexeme]
  · rw [← elsewhere_advance hanchored.ne_nil]
    exact hrun (by rw [elsewhere_sees hanchored.ne_nil, hsees])

theorem Blind.close {what}
    (h : Blind numbered (fun value found => related value [rightParen] found []) parser follower) :
    FollowsWhen numbered given keep related (close what >>= fun _ => parser)
      (close what >>= fun _ => follower) :=
  h.closer (c := ')') rfl (.inl rfl) (close_behaves what).goesOnward
    (fun _ _ _ => close_eq_done) fun _ hsees => by rw [close_run, if_pos hsees]

theorem Blind.closeBrace
    (h : Blind numbered (fun value found => related value [rightBrace] found []) parser follower) :
    FollowsWhen numbered given keep related (expect .rightBrace message >>= fun _ => parser)
      (expect .rightBrace message >>= fun _ => follower) :=
  h.closer (c := '\x7d') rfl (.inr rfl) (expect_behaves _ _).goesOnward
    (fun _ _ _ hrun hclean => ⟨(expect_eq_done hrun hclean).1, (expect_eq_done hrun hclean).2.2⟩)
    fun _ hsees => by rw [expect_run, if_pos hsees]

theorem close_follows :
    Follows numbered (Same fun _ used => used = [rightParen]) (close what) (close what) := by
  have hpure : (close what >>= fun _ => pure ()) = close what := by
    funext s
    show Parser.bind (close what) (fun _ => pure ()) s = close what s
    unfold Parser.bind
    cases close what s <;> rfl
  rw [← hpure]
  exact (pure_blind ⟨rfl, rfl, rfl⟩).close

theorem FollowsWhen.thenClose {first first' what}
    {next next' : α → Parser β} (hfirst : FollowsWhen numbered given Closing related first first')
    (hnext : ∀ value found, Blind numbered (fun x y => ∀ used errors,
      related value used found errors → related' x (used ++ [rightParen]) y errors)
      (next value) (next' found)) :
    FollowsWhen numbered given keep related'
      (first >>= fun value => close what >>= fun _ => next value)
      (first' >>= fun value => close what >>= fun _ => next' value) := by
  refine hfirst.bind_keep (fun value found => Blind.close ?_) fun value s x s' hruns => ?_
  · simpa only [append_nil] using hnext value found
  · obtain ⟨_, s₁, hclose, hrest⟩ := bind_eq_done.mp hruns.done
    exact (close_eq_done hclose (clean_of_onward ((hnext value value).onward hrest) hruns.clean)).1

/-! ## Repetition -/

/-- A relation of lists that is built from one of their items. -/
structure Lists (related : Relation α) (all : Relation (List α)) : Prop where
  nil : all [] [] [] []
  cons : ∀ ⦃value used found errors values later founds more⦄, related value used found errors →
    all values later founds more →
    all (value :: values) (used ++ later) (found :: founds) (errors ++ more)

/-- The same with commas between the items. -/
structure CommaLists (related : Relation α) (all : Relation (List α)) : Prop where
  nil : all [] [] [] []
  last : ∀ ⦃value used found errors⦄, related value used found errors →
    all [value] used [found] errors
  cons : ∀ ⦃value used found errors values later founds more⦄, related value used found errors →
    all values later founds more →
    all (value :: values) (used ++ comma :: later) (found :: founds) (errors ++ more)

def Prepends (spell : List α → List Lexeme → Prop) (item : α) (first : List Lexeme) : Prop :=
  ∀ rest lexemes, spell rest lexemes → spell (item :: rest) (first ++ lexemes)

/-- What two values and the errors about the second one have to do with each other. -/
abbrev Cuts (α : Type) : Type :=
  α → α → List Diagnostic → Prop

/-- A spelled value and one that is cut from it. They are the same if the nodes have the same
numbers. -/
structure Matches (numbered : Prop) (spell : α → List Lexeme → Prop) (cut : Cuts α) (value : α)
    (used : List Lexeme) (found : α) (errors : List Diagnostic) : Prop where
  spelled : spell value used
  cut : cut value found errors
  same : numbered → found = value ∧ errors = []

theorem Matches.respell {spell spell' : α → List Lexeme → Prop} {cut} {used used'} {errors}
    (h : Matches numbered spell cut value used found errors)
    (hspell : spell value used → spell' value used') :
    Matches numbered spell' cut value used' found errors :=
  ⟨hspell h.spelled, h.cut, h.same⟩

/-- An item that may be missing. -/
inductive Maybe (cut : Cuts α) : Cuts (Option α) where
  | none : Maybe cut none none []
  | some {value found : α} {errors : List Diagnostic} :
      cut value found errors → Maybe cut (some value) (some found) errors

theorem lists_same {spell : List α → List Lexeme → Prop} (hnil : spell [] []) :
    Lists (Same (Prepends spell)) (Same spell) where
  nil := ⟨rfl, rfl, hnil⟩
  cons := by
    rintro value used _ _ values later _ _ ⟨rfl, rfl, hitem⟩ ⟨rfl, rfl, hrest⟩
    exact ⟨rfl, rfl, hitem _ _ hrest⟩

theorem lists_matches {spell : List α → List Lexeme → Prop} {cut cutAll}
    (hnil : spell [] []) (hcutNil : cutAll [] [] [])
    (hcutCons : ∀ ⦃value found errors values founds more⦄, cut value found errors →
      cutAll values founds more → cutAll (value :: values) (found :: founds) (errors ++ more)) :
    Lists (Matches numbered (Prepends spell) cut) (Matches numbered spell cutAll) where
  nil := ⟨hnil, hcutNil, fun _ => ⟨rfl, rfl⟩⟩
  cons := by
    intro value used found errors values later founds more hitem hrest
    refine ⟨hitem.spelled _ _ hrest.spelled, hcutCons hitem.cut hrest.cut, fun hnumbered => ?_⟩
    obtain ⟨rfl, rfl⟩ := hitem.same hnumbered
    obtain ⟨rfl, rfl⟩ := hrest.same hnumbered
    exact ⟨rfl, rfl⟩

theorem follows_of_length (parser follower : Nat → Parser α) (h : ∀ ⦃bound bound'⦄, bound ≤ bound' →
      FollowsWhen numbered given keep related (parser bound) (follower bound')) :
    FollowsWhen numbered given keep related (fun s => parser s.ahead.length s)
      (fun s => follower s.ahead.length s) where
  onward := fun s _ _ hrun => (h (le_refl s.ahead.length)).onward hrun
  anchored := fun s _ _ hrun => (h (le_refl s.ahead.length)).anchored
    (hrun.of_done hrun.done)
  follow := fun s _ _ t id past hrun => by
    have hbound : s.ahead.length ≤ (s.elsewhere t id past).ahead.length := by simp [elsewhere]
    exact (h hbound).follow t id past (hrun.of_done hrun.done)

theorem stopped_follows (hkeep : ∀ s, keep s → s.Anchored)
    (h : ∀ ⦃s⦄ t id past, keep s → follower (s.elsewhere t id past) =
      .done found (s.elsewhere t id past)) (hrelated : related value [] found []) :
    FollowsWhen numbered given keep related (pure value) follower where
  onward := (pure_behaves value).goesOnward
  anchored := fun _ _ _ hrun => by
    cases hrun.done
    exact hkeep _ hrun.kept
  follow := fun s _ _ t id past hrun hid => by
    cases hrun.done
    exact ⟨[], found, id, [], .refl s, hrelated, hid, by rw [append_nil, h t id past hrun.kept]⟩

section Combinators

variable {item item' : Parser α} {all : Relation (List α)} {more : State → Bool}
  {bound' bound : Nat}

section Repeat

variable (hlists : Lists related all)
  (hmore : ∀ ⦃s⦄ t id past, s.ahead ≠ [] → more (elsewhere s t id past) = more s)
  (hstop : ∀ s : State, s.Closing → more s = false)
  (hitem : FollowsWhen numbered (more · = true) Anchored related item item')

include hlists hmore hstop hitem

theorem repeatUpTo_follows (hbound : bound ≤ bound') :
    FollowsWhen numbered given Closing all (repeatUpTo more item bound)
      (repeatUpTo more item' bound') := by
  induction bound generalizing bound' given with
  | zero =>
      refine stopped_follows (fun _ => Closing.anchored) (fun s t id past hclosing => ?_) hlists.nil
      cases bound' with
      | zero => rfl
      | succ bound' =>
          have hend := (hmore t id past hclosing.anchored.ne_nil).trans (hstop s hclosing)
          simp [repeatUpTo, bind_eq_done, hend]
  | succ bound ih =>
      obtain ⟨bound', rfl⟩ : ∃ n, bound' = n + 1 := ⟨bound' - 1, by omega⟩
      refine ask_ite_follows (fun _ _ _ t id past _ h => hmore t id past h.ne_nil) ?_
        (pure_follows (fun _ => Closing.anchored) hlists.nil)
      exact (hitem.mono (fun _ h => h.2) fun _ h => h).bind fun first first' =>
        (ih (le_of_succ_le_succ hbound)).thenPure (fun _ => Closing.anchored)
          fun _ _ _ _ hrest _ _ hfirst => hlists.cons hfirst hrest

theorem repeatWhile_follows :
    FollowsWhen numbered given Closing all (repeatWhile more item) (repeatWhile more item') :=
  follows_of_length (repeatUpTo more item) (repeatUpTo more item') fun _ _ =>
    repeatUpTo_follows hlists hmore hstop hitem

end Repeat

theorem repeatInBody_follows (hlists : Lists related all)
    (hitem : FollowsWhen numbered (State.inBody · = true) Anchored related item item') :
    FollowsWhen numbered given Closing all (repeatWhile State.inBody item)
      (repeatWhile State.inBody item') :=
  repeatWhile_follows hlists (fun _ _ _ _ => elsewhere_inBody)
    (fun s h => by simp [State.inBody, show s.sees .rightParen = true from h]) hitem

theorem repeatOpen_follows (hlists : Lists related all)
    (hitem : FollowsWhen numbered (·.sees .leftParen = true) Anchored related item item') :
    FollowsWhen numbered given Closing all (repeatWhile (·.sees .leftParen) item)
      (repeatWhile (·.sees .leftParen) item') :=
  repeatWhile_follows hlists (fun _ _ _ _ h => elsewhere_sees h _)
    (fun s h => by simp [State.sees, sees_iff.mp h]) hitem

theorem separatedUpTo_follows (hlists : CommaLists related all)
    (hitem : Follows numbered related item item') (hbound : bound ≤ bound') :
    FollowsWhen numbered given BraceClosing all (separatedUpTo item bound)
      (separatedUpTo item' bound') := by
  have hend ⦃s : State⦄ (t : State) (id : Nat) (past : List Diagnostic) (hanchored : s.Anchored) :
      ((s.elsewhere t id past).sees .rightBrace || (s.elsewhere t id past).atEnd) =
        (s.sees .rightBrace || s.atEnd) := by
    rw [elsewhere_sees hanchored.ne_nil, elsewhere_atEnd hanchored.ne_nil]
  induction bound generalizing bound' given with
  | zero =>
      refine stopped_follows (fun _ => BraceClosing.anchored) (fun s t id past hclosing => ?_)
        hlists.nil
      cases bound' with
      | zero => rfl
      | succ bound' =>
          have hsees : s.sees .rightBrace = true := hclosing
          have hstop := (hend t id past hclosing.anchored).trans (by rw [hsees, Bool.true_or])
          simp [separatedUpTo, bind_eq_done, hstop]
  | succ bound ih =>
      obtain ⟨bound', rfl⟩ : ∃ n, bound' = n + 1 := ⟨bound' - 1, by omega⟩
      -- After an item a comma leads to further ones; without it the item is the last.
      refine ask_ite_follows (fun _ _ _ t id past _ => hend t id past)
        (pure_follows (fun _ => BraceClosing.anchored) hlists.nil)
        (hitem.bind fun first first' => ask_ite_follows
          (fun _ _ _ _ _ _ _ hanchored => elsewhere_sees hanchored.ne_nil _)
          (((advance_punctuation_follows (c := ',') rfl).mono (fun _ h => h.2) fun _ h =>
            h).bind_same
            fun _ => (ih (le_of_succ_le_succ hbound)).thenPure (fun _ => BraceClosing.anchored) ?_)
          (pure_follows (fun _ => BraceClosing.anchored) fun used errors hfirst => ?_))
      · rintro _ _ _ _ hrest _ rfl used errors hfirst
        exact hlists.cons hfirst hrest
      · simpa only [append_nil] using hlists.last hfirst

theorem separated_follows (hlists : CommaLists related all)
    (hitem : Follows numbered related item item') {next next' : List α → Parser β}
    (hnext : ∀ values founds, Blind numbered
      (fun x y => ∀ used errors, all values used founds errors →
      related' x (used ++ [rightBrace]) y errors) (next values) (next' founds)) :
    FollowsWhen numbered given keep related'
      (separated item >>= fun values => expect .rightBrace message >>= fun _ => next values)
      (separated item' >>= fun values => expect .rightBrace message >>= fun _ => next' values) := by
  refine FollowsWhen.bind_keep (fun values founds => Blind.closeBrace ?_)
    (follows_of_length (separatedUpTo item) (separatedUpTo item')
      fun _ _ => separatedUpTo_follows hlists hitem) fun values s x s' hruns => ?_
  · simpa only [append_nil] using hnext values founds
  · obtain ⟨_, s₁, hexpect, hrest⟩ := bind_eq_done.mp hruns.done
    exact (expect_eq_done hexpect
      (clean_of_onward ((hnext values values).onward hrest) hruns.clean)).1

theorem unlessClosed_follows {optional} (hkeep : ∀ s, keep s → s.Anchored)
    (hnone : ∀ s, given s → s.inBody = false → optional none [] none [])
    (hsome : ∀ ⦃value used found errors⦄, related value used found errors →
      optional (some value) used (some found) errors)
    (hitem : FollowsWhen numbered (fun _ => True) keep related item item') :
    FollowsWhen numbered given keep optional (unlessClosed item) (unlessClosed item') :=
  ask_ite_follows (fun _ _ _ _ _ _ _ hanchored => elsewhere_inBody hanchored.ne_nil)
    ((hitem.mono (fun _ _ => trivial) fun _ h => h).thenPure hkeep hsome)
    (.of_given (optional none [] none []) (fun s h => hnone s h.1 h.2) (pure_follows hkeep id))

theorem expect_bind_follows (hc : punctuation? c = some kind)
    (hyes : FollowsWhen numbered (fun _ => True) keep
      (fun value used found errors => related value (⟨kind, String.ofList [c]⟩ :: used) found
      errors) yes yes') (hno : Orderly no) :
    FollowsWhen numbered given keep related
      (expect kind message >>= fun seen => if seen = true then yes else no)
      (expect kind message >>= fun seen => if seen = true then yes' else no') := by
  refine ((expect_follows hc message).when fun _ h => h).bind_between (fun _ _ => True)
    (fun seen => ?_) (fun s seen s₁ x s' hexpect hrest => ?_) (fun _ _ _ _ => trivial) ?_
  · cases seen with
    | true => exact hyes.onward
    | false => exact hno.goesOnward
  · obtain ⟨_, rfl, _⟩ := expect_eq_done hexpect.done hexpect.clean
    exact hyes.anchored hrest
  · rintro _ _ _ _ ⟨rfl, rfl, rfl, rfl⟩
    exact hyes

theorem parenthesized_follows {items items' : Parser (List α)} (message what : String)
    (hitems : FollowsWhen numbered (fun _ => True) Closing all items items') :
    FollowsWhen numbered given keep (fun values used founds errors =>
      ∃ inner, used = parens inner ∧ all values inner founds errors)
      (parenthesized message what items) (parenthesized message what items') :=
  expect_bind_follows (c := '(') rfl
    (hitems.thenClose fun _ _ => pure_blind fun used _ h => ⟨used, rfl, h⟩) (pure_behaves [])

end Combinators

end Parser

end ContractAudit
