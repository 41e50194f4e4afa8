import ContractAudit.Proofs.Parse.Takes
import ContractAudit.Proofs.Token.Marks

/-!
# What parsers read of printed text

Marks are written as the tokens that stand for them. No mark starts with a dot, so that a name is
read to its end and no further wherever a mark or nothing follows.
-/

namespace ContractAudit

open Parse List

variable {used tokens : List Token} {what : String} {token : Token} {mark : Mark}
  {marks later : List Mark}

/-! ## Tokens that stand for marks -/

/-- The token of a word. -/
structure IsToken (text : String) (token : Token) : Prop where
  name : token.kind.isName = true
  kind : token.kind = Scan.wordKind text.toList
  value : token.value = text

theorem Stands.head (h : Stands mark used) : ∃ first more, used = first :: more ∧
    first.kind ≠ .dot ∧ first.kind ≠ .endOfInput ∧
      (mark ≠ .rightParen → first.kind ≠ .rightParen) := by
  have hkinds {kind : TokenKind} (hkind : kind.isName = true ∨ kind.isLiteral = true) :
      kind ≠ .dot ∧ kind ≠ .endOfInput ∧ (mark ≠ .rightParen → kind ≠ .rightParen) := by
    rcases hkind with hkind | hkind <;> refine ⟨?_, ?_, fun _ => ?_⟩ <;> rintro rfl <;> cases hkind
  cases h with
  | leftParen token hkind | rightParen token hkind | size value token hkind =>
      exact ⟨token, [], rfl, by simp [hkind]⟩
  | word text token hname => exact ⟨token, [], rfl, hkinds (.inl hname)⟩
  | name text first more hname => exact ⟨first, more, rfl, hkinds (.inl hname)⟩
  | literal value token hliteral => exact ⟨token, [], rfl, hkinds (.inr hliteral)⟩

theorem Written.append_inv (h : Written (marks ++ later) tokens) :
    ∃ used rest, tokens = used ++ rest ∧ Written marks used ∧ Written later rest := by
  induction marks generalizing tokens with
  | nil => exact ⟨[], tokens, rfl, .nil, h⟩
  | cons mark marks ih =>
      cases h with
      | cons hmark hrest =>
          obtain ⟨used, rest, rfl, hused, hlater⟩ := ih hrest
          exact ⟨_, rest, (append_assoc _ _ _).symm, .cons hmark hused, hlater⟩

def Opens (marks : List Mark) : Prop :=
  ∃ mark rest, marks = mark :: rest ∧ mark ≠ .rightParen

theorem Opens.append (h : Opens marks) (more : List Mark) : Opens (marks ++ more) := by
  obtain ⟨mark, rest, rfl, hmark⟩ := h
  exact ⟨mark, rest ++ more, rfl, hmark⟩

theorem opens_parens (inner : List Mark) : Opens (Mark.parens inner) :=
  ⟨.leftParen, _, rfl, nofun⟩

theorem Opens.continued (h : Opens marks) (hwritten : Written marks tokens) :
    Parser.Continued tokens := by
  obtain ⟨mark, rest, rfl, hmark⟩ := h
  cases hwritten with
  | cons hstands _ =>
      obtain ⟨first, more, rfl, _, hend, hright⟩ := hstands.head
      exact ⟨first, _, rfl, hright hmark, hend⟩

namespace Parser

variable {α β γ : Type} {s : State} {make : Span → α} {rest : List Token} {start : Location}
  (message : String)

def Undotted (rest : List Token) : Prop :=
  ∀ token ∈ rest.head?, token.kind ≠ .dot

theorem Closed.undotted (h : Closed rest) : Undotted rest := by
  obtain ⟨closing, more, rfl, hkind⟩ := h
  rintro _ ⟨⟩
  simp [hkind]

theorem Undotted.append (h : Undotted rest) (hwritten : Written marks tokens) :
    Undotted (tokens ++ rest) := by
  cases hwritten with
  | nil => exact h
  | cons hstands _ =>
      obtain ⟨first, more, rfl, hdot, _⟩ := hstands.head
      rintro _ ⟨⟩
      exact hdot

/-! ## Basic parsers -/

/-- Marks as they are printed. -/
def inMarks : Script Mark where
  writes := Written
  nil h := by cases h; rfl
  append := Written.append_inv

/-- Before anything that is printed, or nothing, a parser reads the marks it is given. -/
abbrev ReadsMarks (parser : Parser α) (marks : List Mark) (gives : α → Prop) : Prop :=
  Reads inMarks Undotted parser marks gives

variable {parser : Parser α} {gives : α → Prop} {gives' : β → Prop} {follow : List Token → Prop}

theorem ReadsMarks.bind {next} (h : ReadsMarks parser marks gives)
    (hnext : ∀ value, gives value → ReadsMarks (next value) later gives') :
    ReadsMarks (parser >>= next) (marks ++ later) gives' :=
  h.bindWhen (fun _ _ hwritten hrest => hrest.append hwritten) hnext

theorem single_mark {given : Token → Prop}
    (h : ∀ used, Stands mark used → ∃ token, used = [token] ∧ given token) :
    inMarks.Single mark given := by
  rintro tokens (_ | ⟨hstands, ⟨⟩⟩)
  rw [append_nil]
  exact h _ hstands

theorem single_open : inMarks.Single .leftParen (·.kind = .leftParen) :=
  single_mark fun | _, .leftParen token hkind => ⟨token, rfl, hkind⟩

theorem single_close : inMarks.Single .rightParen (·.kind = .rightParen) :=
  single_mark fun | _, .rightParen token hkind => ⟨token, rfl, hkind⟩

theorem single_word (text : String) : inMarks.Single (.word text) (IsToken text) :=
  single_mark fun | _, .word _ token hname hkind hvalue => ⟨token, rfl, hname, hkind, hvalue⟩

theorem single_literal (value : Literal) : inMarks.Single (.literal value) fun token =>
    token.kind.isLiteral = true ∧ literalValue token = pure value :=
  single_mark fun | _, .literal _ token hkind hvalue => ⟨token, rfl, hkind, hvalue⟩

theorem expect_open_reads :
    Reads inMarks follow (expect .leftParen message) [.leftParen] (· = true) :=
  single_open.reads fun _ hkind => hkind ▸ expect_takes message

theorem close_reads (what : String) :
    Reads inMarks follow (close what) [.rightParen] fun _ => True :=
  single_close.reads fun _ => close_takes what

theorem expectName_reads (what name : String) :
    Reads inMarks follow (expectName what) [.word name] (· = name) :=
  (single_word name).reads fun _ htoken => htoken.value ▸ expectName_takes what htoken.name

theorem closeNode_reads {make : NodeInfo → α} (h : ∀ info, gives (make info)) :
    Reads inMarks follow (do
      close what
      pure (make (← infoFrom start))) [.rightParen] gives :=
  (close_reads what).bind_nil fun _ _ => node_takes h

theorem closeSpan_reads (h : ∀ span, gives (make span)) : Reads inMarks follow (do
      close what
      pure (make (← spanFrom start))) [.rightParen] gives :=
  (close_reads what).bind_nil fun _ _ => span_takes h

/-! ## Repetition -/

section Repetition

variable {condition : State → Bool} {item : Parser α} {items : List β} {marksOf : β → List Mark}
  {view : α → γ} {target : β → γ}

section

variable (hitem : ∀ x ∈ items, ReadsMarks item (marksOf x) fun value => view value = target x)

include hitem

theorem repeatWhile_reads
    (hstarts : ∀ x ∈ items, ∀ tokens, Written (marksOf x) tokens → Starts condition tokens)
    (hstop : ∀ s : State, follow s.ahead → condition s = false)
    (hfollow : ∀ rest, follow rest → Undotted rest) :
    Reads inMarks follow (repeatWhile condition item) (items.flatMap marksOf)
      fun found => found.map view = items.map target := by
  refine fun tokens hwritten => TakesAll.repeatWhile ?_
  induction items generalizing tokens with
  | nil =>
      cases hwritten with
      | nil => exact takesAll_nil hstop
  | cons x items ih =>
      obtain ⟨used, rest, rfl, hused, hrest⟩ := Written.append_inv hwritten
      exact .cons (fun _ => hstarts x (by simp) used hused) (hitem x (by simp) hused)
        (fun more hmore => (hfollow more hmore).append hrest)
        (ih (fun y hy => hitem y (mem_cons_of_mem x hy)) (fun y hy =>
          hstarts y (mem_cons_of_mem x hy))
          rest hrest)

theorem body_reads (hopens : ∀ x ∈ items, Opens (marksOf x)) :
    Reads inMarks Closed (repeatWhile State.inBody item) (items.flatMap marksOf)
      fun found => found.map view = items.map target :=
  repeatWhile_reads hitem (fun x hx _ hwritten => ((hopens x hx).continued hwritten).starts)
    (fun _ => Closed.inBody) fun _ => Closed.undotted

end

theorem parens_reads {inner : β → List Mark} (hitem : ∀ x ∈ items,
      ReadsMarks item (Mark.parens (inner x)) fun value => view value = target x) :
    Reads inMarks Closed (repeatWhile (·.sees .leftParen) item)
      (items.flatMap fun x => Mark.parens (inner x))
      fun found => found.map view = items.map target := by
  refine repeatWhile_reads hitem (fun x _ tokens hwritten => ?_) (fun _ => Closed.sees_leftParen)
    fun _ => Closed.undotted
  obtain ⟨token, rest, rfl, hkind, _⟩ := single_open.uncons hwritten
  exact starts_leftParen hkind

theorem map_filterMap_id {found : List (Option α)}
    (h : found.map (Option.map view) = items.map fun x => some (target x)) :
    (found.filterMap id).map view = items.map target := by
  calc (found.filterMap id).map view = (found.map (Option.map view)).filterMap id := by
        rw [map_filterMap, filterMap_map]
        rfl
    _ = items.map target := by
        rw [h, filterMap_map, ← filterMap_eq_map]
        rfl

theorem unlessClosed_reads (hitem : Reads inMarks follow item marks gives) (hopens : Opens marks) :
    Reads inMarks follow (unlessClosed item) marks fun value =>
      ∃ found, value = some found ∧ gives found :=
  fun _ hwritten => unlessClosed_takes (fun _ => hopens.continued hwritten) (hitem hwritten)

theorem unlessClosed_reads_option {x : Option β}
    (hitem : ∀ y ∈ x, ReadsMarks item (marksOf y) fun value => view value = target y)
    (hopens : ∀ y ∈ x, Opens (marksOf y)) :
    Reads inMarks Closed (unlessClosed item) (x.toList.flatMap marksOf)
      fun found => found.map view = x.map target := by
  cases x with
  | none => exact reads_nil (unlessClosed_closed.imp fun _ hfound => by rw [hfound]; rfl)
  | some y =>
      have hread := unlessClosed_reads (hitem y rfl) (hopens y rfl)
      rw [Option.toList_some, flatMap_singleton]
      refine (hread.mono fun _ => Closed.undotted).imp ?_
      rintro _ ⟨found, rfl, hfound⟩
      rw [Option.map_some, Option.map_some, hfound]

theorem parenthesized_reads {items} {gives : List α → Prop} (what : String)
    (hitems : Reads inMarks Closed items marks gives) :
    Reads inMarks follow (parenthesized message what items) (Mark.parens marks) gives := by
  refine (expect_open_reads message).bind fun seen hseen => ?_
  subst hseen
  exact hitems.bindClosed single_close fun found hfound =>
    (close_reads what).bind_nil fun _ _ => pure_takes hfound

end Repetition

end Parser

end ContractAudit
