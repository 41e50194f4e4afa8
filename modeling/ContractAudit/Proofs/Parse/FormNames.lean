import ContractAudit.Proofs.Parse.Append
import ContractAudit.Proofs.Semantic.Scoping
import ContractAudit.Proofs.Token.Tiling

/-!
# Names and places of definitions

A word of a text has a character at least, and so has the placeholder for a name that could not be
read. So no definition that the parse of a text gives has an empty name. A definition starts at its
first token and takes it up, whatever is wrong with the rest, so no two of them start at one place.
`Gives` says what holds of the value of a parser; it passes from the parts of a parser to the whole.
-/

namespace ContractAudit

open Parse List Token

variable {result : ParseResult} {source : String}

theorem value_ne_empty_of_isName {token : Token}
    (h : token ∈ (tokenize source).dropLast) (hname : token.kind.isName = true) :
    token.value ≠ "" := by
  have hword := isPlainName_of_isName h hname
  rintro hempty
  rw [hempty] at hword
  cases hword

def Wordy (tokens : List Token) : Prop :=
  ∀ token ∈ tokens, token.kind.isName = true → token.value ≠ ""

def Form.Named (form : Form) : Prop :=
  ∀ kind name, form.defines? = some (kind, name) → name ≠ ""

namespace Form.Named

variable {form : Form}

theorem of_defines? {kind name} (h : form.defines? = some (kind, name))
    (hname : name ≠ "") : form.Named := by
  intro kind' name' h'
  rw [h] at h'
  cases h'
  exact hname

theorem of_defines?_none (h : form.defines? = none) : form.Named := by
  intro kind name h'
  rw [h] at h'
  cases h'

end Form.Named

namespace Parser

variable {α β : Type} {p : β → Prop} {next : α → Parser β} {first : Parser α} (start : Location)

/-- What holds of the value that a parser gives where no word is empty. -/
def Gives (parser : Parser α) (p : α → Prop) : Prop :=
  ∀ ⦃s value s'⦄, Wordy s.ahead → parser s = .done value s' → p value

theorem Gives.bind {q : α → Prop} (hfirst : Gives first q) (horderly : Orderly first)
    (hnext : ∀ value, q value → Gives (next value) p) : Gives (first >>= next) p := by
  intro s found s' hwords h
  obtain ⟨value, s₁, hrun, hrest⟩ := bind_eq_done.mp h
  have hwords₁ : Wordy s₁.ahead := fun token htoken =>
    hwords token ((horderly.done hrun).ahead.subset htoken)
  exact hnext value (hfirst hwords hrun) hwords₁ hrest

theorem Gives.after (horderly : Orderly first) (hnext : ∀ value, Gives (next value) p) :
    Gives (first >>= next) p :=
  .bind (q := fun _ => True) (fun _ _ _ _ _ => trivial) horderly fun value _ => hnext value

theorem pure_gives {value : β} (h : p value) : Gives (pure value) p := by
  intro s found s' _ hrun
  cases hrun
  exact h

theorem gives_ite {c : Prop} [Decidable c] {first second} (hfirst : Gives first p)
    (hsecond : Gives second p) : Gives (if c then first else second) p := by
  split
  · exact hfirst
  · exact hsecond

theorem expectName_gives (what : String) : Gives (expectName what) (· ≠ "") := by
  intro s name s' hwords hrun
  rw [expectName_run] at hrun
  split at hrun
  · next hname =>
      cases hrun
      have hlive : s.current.kind ≠ .endOfInput := by
        intro hend
        simp [hend, TokenKind.isName] at hname
      obtain ⟨rest, hahead⟩ := State.ahead_of_current hlive
      exact hwords s.current (hahead ▸ mem_cons_self) hname
  · cases hrun
    decide

theorem infoFrom_gives : Gives (infoFrom start) (·.span.start = start) := by
  intro s info s' _ hrun
  cases hrun
  rfl

/-! ## Forms -/

def OpensAt (start : Location) (form : Form) : Prop :=
  form.Named ∧ form.info.span.start = start

def ResultOpensAt (start : Location) (result : FormResult) : Prop :=
  ∀ form, result.form = some form → OpensAt start form

theorem closeThenNode_gives {what start} {make : NodeInfo → Form}
    (hinfo : ∀ info, (make info).info = info) (h : ∀ info, (make info).Named) :
    Gives (do
      close what
      pure (make (← infoFrom start))) (OpensAt start) :=
  .after (close_behaves _) fun _ => .bind (infoFrom_gives start) (infoFrom_steady _).orderly
    fun info hstart => pure_gives ⟨h info, by rw [hinfo, hstart]⟩

theorem constant_gives : Gives (constant expr start) (OpensAt start) :=
  .bind (expectName_gives _) (expectName_behaves _) fun _ hname =>
    .after expr_orderly fun _ => closeThenNode_gives (fun _ => rfl) fun _ => .of_defines? rfl hname

theorem map_gives : Gives (map start) (OpensAt start) :=
  .bind (expectName_gives _) (expectName_behaves _) fun _ hname =>
    .after typeSpec_behaves fun _ => .after typeSpec_behaves fun _ =>
      closeThenNode_gives (fun _ => rfl) fun _ => .of_defines? rfl hname

theorem dataVar_gives : Gives (dataVar expr start) (OpensAt start) :=
  .bind (expectName_gives _) (expectName_behaves _) fun _ hname =>
    .after typeSpec_behaves fun _ => .after expr_orderly fun _ =>
      closeThenNode_gives (fun _ => rfl) fun _ => .of_defines? rfl hname

theorem nonFungible_gives : Gives (nonFungible start) (OpensAt start) :=
  .bind (expectName_gives _) (expectName_behaves _) fun _ hname =>
    .after typeSpec_behaves fun _ => closeThenNode_gives (fun _ => rfl) fun _ =>
      .of_defines? rfl hname

theorem fungible_gives : Gives (fungible expr start) (OpensAt start) :=
  .bind (expectName_gives _) (expectName_behaves _) fun _ hname =>
    .after (unlessClosed_behaves expr_orderly) fun _ =>
      closeThenNode_gives (fun _ => rfl) fun _ => .of_defines? rfl hname

theorem function_gives (visibility : Visibility) (start : Location) :
    Gives (function expr visibility start) (ResultOpensAt start) := by
  refine .after (expect_behaves _ _) fun _ => .bind (expectName_gives _) (expectName_behaves _)
    fun name hname => .after (repeatWhile_behaves parameter_begins.behaves) fun _ =>
      .after (close_behaves _) fun _ => .after functionBody_orderly fun _ =>
        .after (behaves_ite (pure_behaves _) (close_behaves _)) fun _ =>
          .bind (infoFrom_gives start) (infoFrom_steady _).orderly fun _ hstart => pure_gives ?_
  rintro form ⟨⟩
  exact ⟨.of_defines? rfl hname, hstart⟩

theorem trait_gives : Gives (trait start) (OpensAt start) :=
  .after (expectName_behaves _) fun _ => .after (parenthesized_behaves _ _
    (repeatWhile_behaves traitFunction_begins.behaves)) fun _ =>
      closeThenNode_gives (fun _ => rfl) fun _ => .of_defines?_none rfl

theorem useTrait_gives : Gives (useTrait expr start) (OpensAt start) :=
  .after (expectName_behaves _) fun _ => .after expr_orderly fun _ =>
    closeThenNode_gives (fun _ => rfl) fun _ => .of_defines?_none rfl

theorem implTrait_gives : Gives (implTrait expr start) (OpensAt start) :=
  .after expr_orderly fun _ => closeThenNode_gives (fun _ => rfl) fun _ => .of_defines?_none rfl

theorem whole_gives {parser start} (h : Gives parser (OpensAt start)) :
    Gives (whole parser) (ResultOpensAt start) := by
  intro s result s' hwords hrun
  obtain ⟨found, s₁, hfound, hrest⟩ := bind_eq_done.mp hrun
  cases hrest
  rintro form rfl
  unfold unlessInterrupted at hfound
  split at hfound <;> cases hfound
  next hparser => exact h hwords hparser

theorem formAfter?_gives {keyword rest} (h : formAfter? expr keyword = some rest)
    (start : Location) :
    Gives (rest start) (ResultOpensAt start) := by
  unfold formAfter? at h
  split at h <;> cases h
  · exact whole_gives (constant_gives start)
  · exact function_gives _ start
  · exact function_gives _ start
  · exact function_gives _ start
  · exact whole_gives (map_gives start)
  · exact whole_gives (dataVar_gives start)
  · exact whole_gives (nonFungible_gives start)
  · exact whole_gives (fungible_gives start)
  · exact whole_gives (trait_gives start)
  · exact whole_gives (useTrait_gives start)
  · exact whole_gives (implTrait_gives start)

variable {s s' : State}

theorem Wordy.of_onward (hwords : Wordy s.ahead) (h : s.Onward s') : Wordy s'.ahead :=
  fun token htoken => hwords token (h.ahead.subset htoken)

theorem form_gives {result} (hwords : Wordy s.ahead) (h : form expr s = .done result s') :
    ResultOpensAt s.current.location result := by
  have hnone : ResultOpensAt s.current.location ⟨none, false⟩ := fun _ h => nomatch h
  refine gives_ite (.after (report_behaves _ _ _ rfl) fun _ => pure_gives hnone)
    (.after peek_behaves fun head => ?_) (Wordy.of_onward hwords (.advance s)) h
  split
  · next hrest =>
      exact .after advance_behaves fun _ => formAfter?_gives (formAt?_eq_some.mp hrest).2 _
  · exact .after (report_behaves _ _ _ rfl) fun _ => pure_gives hnone

theorem forms_give {found} (hwords : Wordy s.ahead) (h : forms expr s = .done found s') :
    (∀ form ∈ found.filterMap id, form.Named) ∧
      ((found.filterMap id).map (·.info.span.start)).Sublist (s.ahead.map location) := by
  refine forms_rec expr_orderly (motive := fun s found => Wordy s.ahead →
    (∀ form ∈ found.filterMap id, form.Named) ∧
      ((found.filterMap id).map (·.info.span.start)).Sublist (s.ahead.map location))
    (fun _ _ => ⟨by simp, by simp⟩) ?_ h hwords
  intro s s₁ first rest hahead hfirst _ ih hwords
  have honward := formThenResume_orderly.done hfirst
  obtain ⟨hnamed, hstarts⟩ := ih (Wordy.of_onward hwords honward)
  obtain ⟨result, _, hform, rfl, _⟩ := formThenResume_eq_done.mp hfirst
  -- The first token ahead is taken up.
  obtain ⟨token, others, htokens⟩ := exists_cons_of_ne_nil hahead
  have hshorter := length_formThenResume expr_orderly hfirst hahead
  have hsuffix : s₁.ahead <:+ others := by
    have hsuffix := honward.ahead
    rw [htokens, suffix_cons_iff] at hsuffix
    exact hsuffix.resolve_left fun heq => by rw [heq, htokens] at hshorter; omega
  have hlater := hstarts.trans (hsuffix.sublist.map location)
  rw [htokens, map_cons]
  cases hresult : result.form with
  | none => exact ⟨by simpa using hnamed, by simpa using hlater.cons _⟩
  | some form =>
      obtain ⟨hname, hstart⟩ := form_gives hwords hform form hresult
      rw [State.current_eq htokens] at hstart
      rw [← hstart]
      exact ⟨forall_mem_cons.mpr ⟨hname, hnamed⟩, hlater.cons_cons _⟩

end Parser

theorem forms_of_text (h : parse source = .ok result) :
    (∀ form ∈ result.contract.body, form.Named) ∧
      (result.contract.body.map (·.info.span.start)).Sublist
        ((tokenize source).map location) := by
  obtain ⟨found, state, hforms, hbody, _⟩ := Parser.forms_of_parse h
  have hahead := ofTokens_tokenize_ahead source
  have hgive := Parser.forms_give (fun token htoken => by
    rw [hahead] at htoken
    exact value_ne_empty_of_isName htoken) hforms
  rw [← hbody, hahead] at hgive
  exact ⟨hgive.1, hgive.2.trans ((dropLast_sublist _).map _)⟩

/-- No definition in the parse of a text has an empty name. -/
theorem named_of_parse (h : parse source = .ok result) :
    ∀ form ∈ result.contract.body, form.Named :=
  (forms_of_text h).1

theorem nodup_formSpans (h : parse source = .ok result) :
    (result.contract.body.map (·.info.span)).Nodup := by
  have hdistinct : ((result.contract.body.map (·.info.span)).map Span.start).Nodup := by
    rw [map_map]
    exact (forms_of_text h).2.nodup (nodup_location_tokenize source)
  exact List.Pairwise.of_map Span.start (fun _ _ hne heq => hne (congrArg Span.start heq)) hdistinct

end ContractAudit
