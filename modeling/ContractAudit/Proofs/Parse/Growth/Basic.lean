import ContractAudit.Proofs.Parse.Loops
import ContractAudit.Proofs.Syntax.Nesting

/-!
# The trees that a parser reads

A parser reads trees one behind the other, and numbers a node when its parts have been read. `Grown`
says what can have happened between two states that are apart by a run: which trees have been read,
from which token each of their nodes starts, and what may have been dropped. `GrowsWhen` says so of
a parser, and `GrowsAfter` of the part of a parser that reads the rest of a node. What holds of the
nodes of a parse, such as their numbers, their spans and how deep they nest, follows from this by
induction, without another look at the parsers.
-/

namespace ContractAudit

open Parse List Nat

namespace Parse.State

variable {more : State → Bool} {given : State → Prop} {s s' s'' : State}

theorem ne_nil_of_isName (h : s.current.kind.isName = true) : s.ahead ≠ [] := by
  refine ne_nil_of_current fun hend => ?_
  rw [hend] at h
  cases h

theorem Onward.number (s : State) : s.Onward { s with nextId := s.nextId + 1 } :=
  .quiet (.refl _ _ _) rfl (le_succ _) rfl rfl

def Reads (s s' : State) : Prop :=
  s.ahead ≠ [] ∧ s.advance.Onward s'

theorem Reads.onward (h : s.Reads s') (honward : s'.Onward s'') : s.Reads s'' :=
  ⟨h.1, h.2.trans honward⟩

/-- The first token of a node is read between two states, in one of its parts if not by itself, or
an error has been recorded. -/
def Opened (s s' : State) (parts : List Node) : Prop :=
  s.Reads s' ∨ parts ≠ [] ∨ s'.errors ≠ []

theorem Opened.onward {parts} (h : s.Opened s' parts) (honward : s'.Onward s'') :
    s.Opened s'' parts := by
  refine h.imp (·.onward honward) (Or.imp_right fun herrors hclean => herrors ?_)
  exact prefix_nil.mp (hclean ▸ honward.errors)

end Parse.State

def Node.hasHead : Node → Bool
  | .expr (.identifier ..) | .expr (.call ..) => true
  | _ => false

/-- The trees that are read between two states, none of which nests deeper than a number of
levels. -/
inductive Grown : Nat → State → State → List Node → Prop
  /-- What is read belongs to no tree. Nodes are dropped only with an error. -/
  | none {levels : Nat} {s s' : State} (honward : s.Onward s')
      (hkept : s'.errors = s.errors → s'.nextId = s.nextId) : Grown levels s s' []
  | append {levels : Nat} {s s₁ s' : State} {first second : List Node}
      (hfirst : Grown levels s s₁ first) (hsecond : Grown levels s₁ s' second) :
      Grown levels s s' (first ++ second)
  /-- A node is made of what opens it and of its parts. It reaches from the token before which they
  are read to the one read last. A name or a call is opened by a token of its own. -/
  | node {levels below : Nat} {s s₁ s' : State} {node : Node} (hfirst : Grown below s s₁ [])
      (hparts : Grown below s₁ s' node.parts) (hlevels : below + node.isCompound.toNat ≤ levels)
      (hinfo : node.info = ⟨⟨s.current.location, s'.previous.finish⟩, s'.nextId⟩)
      (hhead : node.hasHead = false ∨ s.Reads s₁) (hopened : s.Opened s' node.parts) :
      Grown levels s { s' with nextId := s'.nextId + 1 } [node]
  | placeholder {levels : Nat} {s : State} (location : Location) (herrors : s.errors ≠ []) :
      Grown levels s { s with nextId := s.nextId + 1 }
        [.expr (.identifier ⟨.point location, s.nextId⟩ placeholder)]
  /-- An absent pattern stands before what is read after it. -/
  | absent {levels : Nat} {s s' : State} {row : List Node}
      (hrow : Grown levels { s with nextId := s.nextId + 1 } s' row) (hsome : row ≠ []) :
      Grown levels s s' (.pattern (.none ⟨.point s.current.location, s.nextId⟩) :: row)

namespace Grown

variable {levels deeper : Nat} {s s' : State} {row : List Node}

theorem refl (levels : Nat) (s : State) : Grown levels s s [] :=
  .none (.refl s) fun _ => rfl

theorem onward (h : Grown levels s s' row) : s.Onward s' := by
  induction h with
  | none honward _ => exact honward
  | append _ _ ih ih' => exact ih.trans ih'
  | node _ _ _ _ _ _ ih ih' => exact ih.trans (ih'.trans (.number _))
  | placeholder _ _ => exact .number _
  | absent _ _ ih => exact (State.Onward.number _).trans ih

theorem mono (h : Grown levels s s' row) (hle : levels ≤ deeper) : Grown deeper s s' row := by
  induction h with
  | none honward hkept => exact .none honward hkept
  | append _ _ ih ih' => exact .append (ih hle) (ih' hle)
  | node hfirst hparts hlevels hinfo hhead hopened _ _ =>
      exact .node hfirst hparts (le_trans hlevels hle) hinfo hhead hopened
  | placeholder location herrors => exact .placeholder location herrors
  | absent _ hsome ih => exact .absent (ih hle) hsome

theorem shallow (h : Grown levels s s' row) : ∀ node ∈ row, node.Shallow levels := by
  induction h with
  | none _ _ => simp
  | append _ _ ih ih' => exact forall_mem_append.mpr ⟨ih, ih'⟩
  | node _ _ hlevels _ _ _ _ ih =>
      exact forall_mem_singleton.mpr ((Node.shallow_of_parts ih).mono hlevels)
  | placeholder _ _ => exact forall_mem_singleton.mpr (Node.shallow_of_leaf rfl rfl)
  | absent _ _ ih => exact forall_mem_cons.mpr ⟨Node.shallow_of_leaf rfl rfl, ih⟩

end Grown

namespace Parser

variable {α β : Type} {headed : Bool} {levels below : Nat} {s s₁ s' s₀ : State} {start : Location}
  {before : List Node} {own : α → List Node} {row : β → List Node} {parser : Parser β}
  {message what : String}

/-- Where a condition holds, the parser reads the trees of what it gives. -/
def GrowsWhen (levels : Nat) (given : State → Prop) (parser : Parser β) (row : β → List Node) :
    Prop :=
  ∀ ⦃s value s'⦄, given s → parser s = .done value s' → Grown levels s s' (row value)

/-- The parser reads the trees of what it gives. -/
abbrev Grows (levels : Nat) (parser : Parser β) (row : β → List Node) : Prop :=
  GrowsWhen levels (fun _ => True) parser row

theorem GrowsWhen.mono {given' : State → Prop}
    (h : GrowsWhen levels given parser row) (himp : ∀ s, given' s → given s) :
    GrowsWhen levels given' parser row :=
  fun _ _ _ hs => h (himp _ hs)

theorem Grows.when (h : Grows levels parser row) : GrowsWhen levels given parser row :=
  h.mono fun _ _ => trivial

theorem GrowsWhen.give {parser} (make : α → β)
    (h : GrowsWhen levels given parser own) (hrow : ∀ value, row (make value) = own value) :
    GrowsWhen levels given (do pure (make (← parser))) row := by
  intro s found s' hs hrun
  obtain ⟨value, s₁, hvalue, hgive⟩ := bind_eq_done.mp hrun
  cases hgive
  rw [hrow]
  exact h hs hvalue

theorem Behaves.grows (h : Plain parser) : Grows levels parser fun _ => [] :=
  fun _ _ _ _ hrun => .none (h.orderly.done hrun) fun _ => h.nextId hrun

/-! ## The rest of a node -/

/-- A node that starts at a location has been opened, if it is headed by a token of its own, and
some of its parts have been read. -/
structure Begun (headed : Bool) (below : Nat) (start : Location) (s₀ s : State)
    (before : List Node) : Prop where
  start : s₀.current.location = start
  grown : ∃ s₁, Grown below s₀ s₁ [] ∧ (headed = true → s₀.Reads s₁) ∧ Grown below s₁ s before
  opened : s₀.Opened s before

namespace Begun

variable (h : Begun headed below start s₀ s before)

include h

theorem all : Grown below s₀ s before := by
  obtain ⟨s₁, hfirst, _, hgrown⟩ := h.grown
  exact hfirst.append hgrown

theorem step {part} (hpart : Grown below s s' part) :
    Begun headed below start s₀ s' (before ++ part) := by
  obtain ⟨s₁, hfirst, hreads, hgrown⟩ := h.grown
  refine ⟨h.start, ⟨s₁, hfirst, hreads, hgrown.append hpart⟩,
    (h.opened.onward hpart.onward).imp_right ?_⟩
  exact Or.imp_left fun hsome hnil => hsome (append_eq_nil_iff.mp hnil).1

theorem skip (hgrown : Grown below s s' []) : Begun headed below start s₀ s' before := by
  simpa using h.step hgrown

end Begun

/-- A run of the parser that starts in a node, after some of its parts, reads the rest of it. -/
def GrowsAfter (headed : Bool) (below levels : Nat) (start : Location) (before : List Node)
    (parser : Parser β) (row : β → List Node) : Prop :=
  ∀ ⦃s₀ s value s'⦄, Begun headed below start s₀ s before → parser s = .done value s' →
    Grown levels s₀ s' (row value)

namespace GrowsAfter

variable {first : Parser α} {next : α → Parser β} {tree : NodeInfo → Node} {make : NodeInfo → β}

theorem step (hfirst : Grows below first own)
    (hnext : ∀ value, GrowsAfter headed below levels start (before ++ own value) (next value) row) :
    GrowsAfter headed below levels start before (first >>= next) row := by
  intro s₀ s found s' hbegun h
  obtain ⟨value, s₁, hvalue, hrest⟩ := bind_eq_done.mp h
  exact hnext value (hbegun.step (hfirst trivial hvalue)) hrest

theorem skip (hfirst : Plain first)
    (hnext : ∀ value, GrowsAfter headed below levels start before (next value) row) :
    GrowsAfter headed below levels start before (first >>= next) row := by
  intro s₀ s found s' hbegun h
  obtain ⟨value, s₁, hvalue, hrest⟩ := bind_eq_done.mp h
  exact hnext value (hbegun.skip (hfirst.grows trivial hvalue)) hrest

theorem place (hrow : ∀ info, row (make info) = [tree info])
    (hparts : ∀ info, (tree info).parts = before)
    (htree : ∀ info, (tree info).info = info ∧ (!(tree info).hasHead || headed) = true ∧
      below + (tree info).isCompound.toNat = levels) :
    GrowsAfter headed below levels start before (do pure (make (← infoFrom start))) row := by
  intro s₀ s found s' hbegun h
  cases h
  rw [hrow]
  obtain ⟨hinfo, hhead, hlevels⟩ := htree ⟨⟨start, s.previous.finish⟩, s.nextId⟩
  obtain ⟨s₁, hfirst, hreads, hgrown⟩ := hbegun.grown
  refine .node hfirst ((hparts _).symm ▸ hgrown) (Nat.le_of_eq hlevels) ?_ ?_
    ((hparts _).symm ▸ hbegun.opened)
  · rw [hinfo, hbegun.start]
  · exact (Bool.or_eq_true_iff.mp hhead).imp (by simp) hreads

section

variable (h : ∀ info, (row (make info), (tree info).info, !(tree info).hasHead || headed,
  below + (tree info).isCompound.toNat) = ([tree info], info, true, levels))
  (hparts : ∀ info, (tree info).parts = before)

include h hparts

/-- A node of which all but its parts is known by its form. -/
theorem node :
    GrowsAfter headed below levels start before (do pure (make (← infoFrom start))) row := by
  simp only [Prod.mk.injEq] at h
  exact .place (fun info => (h info).1) hparts fun info => (h info).2

theorem close : GrowsAfter headed below levels start before (do
      Parser.close what
      pure (make (← infoFrom start))) row :=
  .skip (close_behaves _) fun _ => .node h hparts

end

theorem give {value : β} (h : row value = before) :
    GrowsAfter headed levels levels start before (pure value) row := by
  intro s₀ s found s' hbegun hrun
  cases hrun
  rw [h]
  exact hbegun.all

theorem branch {p : Prop} [Decidable p] {yes no}
    (hyes : GrowsAfter headed below levels start before yes row)
    (hno : GrowsAfter headed below levels start before no row) :
    GrowsAfter headed below levels start before (if p then yes else no) row := by
  split
  · exact hyes
  · exact hno

theorem instead (h : Grows levels parser row) (hle : below ≤ levels) :
    GrowsAfter headed below levels start [] parser row := by
  intro s₀ s found s' hbegun hrun
  exact (hbegun.all.mono hle).append (h trivial hrun)

end GrowsAfter

/-! ## The first token of a node -/

theorem begun_of_reads (hreads : s.Reads s₁) (hnextId : s₁.nextId = s.nextId) :
    Begun headed below s.current.location s s₁ [] :=
  ⟨rfl, ⟨s₁, .none ((State.Onward.advance s).trans hreads.2) fun _ => hnextId, fun _ => hreads,
    .refl _ _⟩, .inl hreads⟩

theorem expect_grows {kind} {next : Token → Bool → Parser β} (hkind : kind ≠ .endOfInput)
    (hnext : ∀ token seen, GrowsAfter false below levels token.location [] (next token seen) row) :
    Grows levels (do
      let token ← peek
      let seen ← expect kind message
      next token seen) row := by
  intro s value s' _ h
  rw [peek_bind_run] at h
  obtain ⟨seen, s₁, hseen, h⟩ := bind_eq_done.mp h
  refine hnext _ _ ⟨rfl, ⟨s₁, (expect_behaves _ _).grows trivial hseen, nofun, .refl _ _⟩, ?_⟩ h
  rw [expect_run] at hseen
  split at hseen <;> cases hseen
  · next hsees => exact .inl ⟨State.ne_nil_of_sees hsees hkind, .refl _⟩
  · exact .inr (.inr (by simp [State.reportHere]))

theorem expectName_grows {next : Token → String → Parser β}
    (hnext : ∀ token name, GrowsAfter false below levels token.location [] (next token name) row) :
    Grows levels (do
      let token ← peek
      let name ← expectName what
      next token name) row := by
  intro s value s' _ h
  rw [peek_bind_run] at h
  obtain ⟨name, s₁, hname, h⟩ := bind_eq_done.mp h
  refine hnext _ _ ⟨rfl, ⟨s₁, (expectName_behaves _).grows trivial hname, nofun, .refl _ _⟩, ?_⟩ h
  rw [expectName_run] at hname
  split at hname <;> cases hname
  · next hisName => exact .inl ⟨State.ne_nil_of_isName hisName, .refl _⟩
  · exact .inr (.inr (by simp [State.reportHere]))

theorem begun_of_grown (h : Grown below s s₁ before) (hsome : before ≠ []) :
    Begun false below s.current.location s s₁ before :=
  ⟨rfl, ⟨s, .refl _ _, nofun, h⟩, .inr (.inl hsome)⟩

theorem advance_grows {next} (hgiven : ∀ s, given s → s.ahead ≠ [])
    (hnext : ∀ s, given s → GrowsAfter true below levels s.current.location [] (next s.current)
      row) :
    GrowsWhen levels given (advance >>= next) row :=
  fun s _ _ hs h =>
    hnext s hs (begun_of_reads ⟨hgiven s hs, .refl _⟩ (State.advance_nextId s)) h

/-! ## Combinators -/

section Combinators

variable {item : Parser α}

theorem repeatUpTo_grows (hitem : GrowsWhen levels (more · = true) item own)
    (bound : Nat) : Grows levels (repeatUpTo more item bound) (·.flatMap own) := by
  induction bound with
  | zero =>
      intro s found s' _ h
      cases h
      exact .refl _ _
  | succ bound ih =>
      intro s found s' _ h
      rw [repeatUpTo, ask_bind_run] at h
      split at h
      · next hmore =>
          obtain ⟨first, s₁, hfirst, h⟩ := bind_eq_done.mp h
          obtain ⟨rest, s₂, hrest, h⟩ := bind_eq_done.mp h
          cases h
          exact (hitem hmore hfirst).append (ih trivial hrest)
      · cases h
        exact .refl _ _

theorem repeatWhile_grows (hitem : GrowsWhen levels (more · = true) item own) :
    Grows levels (repeatWhile more item) (·.flatMap own) :=
  fun s _ _ _ h => repeatUpTo_grows hitem s.ahead.length trivial h

theorem separatedUpTo_grows (hitem : Grows levels item own) (bound : Nat) :
    Grows levels (separatedUpTo item bound) (·.flatMap own) := by
  induction bound with
  | zero =>
      intro s found s' _ h
      cases h
      exact .refl _ _
  | succ bound ih =>
      intro s found s' _ h
      rw [separatedUpTo, ask_bind_run] at h
      split at h
      · cases h
        exact .refl _ _
      · obtain ⟨first, s₁, hfirst, h⟩ := bind_eq_done.mp h
        rw [ask_bind_run] at h
        split at h
        · rw [advance_bind_run] at h
          obtain ⟨rest, s₂, hrest, h⟩ := bind_eq_done.mp h
          cases h
          have hcomma : Grown levels s₁ s₁.advance [] :=
            .none (.advance s₁) fun _ => State.advance_nextId s₁
          exact (hitem trivial hfirst).append (hcomma.append (ih trivial hrest))
        · cases h
          simpa using hitem trivial hfirst

theorem separated_grows (hitem : Grows levels item own) :
    Grows levels (separated item) (·.flatMap own) :=
  fun s _ _ _ h => separatedUpTo_grows hitem s.ahead.length trivial h

theorem unlessClosed_grows (hitem : Grows levels item own) :
    Grows levels (unlessClosed item) (·.toList.flatMap own) := by
  have hsome : Grows levels (do pure (some (← item))) (·.toList.flatMap own) :=
    hitem.give some fun _ => by simp
  intro s found s' _ h
  rw [unlessClosed, ask_bind_run] at h
  split at h
  · exact hsome trivial h
  · cases h
    exact .refl _ _

theorem parenthesized_grows {items} (message what : String)
    (hitems : Grows levels items (·.flatMap own)) :
    Grows levels (parenthesized message what items) (·.flatMap own) := by
  intro s found s' _ h
  obtain ⟨seen, s₁, hseen, h⟩ := bind_eq_done.mp h
  have hopen : Grown levels s s₁ [] := (expect_behaves _ _).grows trivial hseen
  split at h
  · obtain ⟨list, s₂, hlist, h⟩ := bind_eq_done.mp h
    obtain ⟨_, s₃, hclose, h⟩ := bind_eq_done.mp h
    cases h
    simpa using (hopen.append (hitems trivial hlist)).append
      ((close_behaves _).grows trivial hclose)
  · cases h
    exact hopen

theorem grown_of_interrupted (horderly : Orderly parser)
    (h : parser s = .interrupted s') : Grown levels s s' [] := by
  obtain ⟨honward, herrors⟩ := horderly.interrupted h
  exact .none honward fun hclean => absurd (hclean ▸ herrors) (lt_irrefl _)

theorem unlessInterrupted_grows (hitem : Grows levels item own) (horderly : Orderly item) :
    Grows levels (unlessInterrupted item) (·.toList.flatMap own) := by
  intro s found s' _ h
  unfold unlessInterrupted at h
  split at h <;> cases h
  · next hrun => simpa using hitem trivial hrun
  · next hrun => exact grown_of_interrupted horderly hrun

theorem reportHere_then_grows {next : Unit → Parser α} (hnext : ∀ answer, Orderly (next answer)) :
    Grows levels (reportHere message >>= next) fun _ => [] := by
  intro s value s' _ h
  have honward := (hnext ()).done (s := s.reportHere message) h
  refine .none ((State.Onward.reportHere s message).trans honward) fun hclean => ?_
  obtain ⟨hsame, _⟩ := (State.Onward.reportHere s message).errors_eq honward hclean
  simp [State.reportHere] at hsame

end Combinators

end Parser

end ContractAudit
