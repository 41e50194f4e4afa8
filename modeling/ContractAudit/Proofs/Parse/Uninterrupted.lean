import ContractAudit.Proofs.Parse.Loops
import ContractAudit.Proofs.Parse.Clean.Basic

/-!
# Definitions that nothing interrupts

A definition in the middle of an expression interrupts the parser of a form, and is reported. The
parsers here know of no interruption: whatever they read is read in the same way by the parsers of
forms (`form_of_definition`), and those read nothing else without errors (`form_clean`). What
is said of parses without errors is therefore proved of these.
-/

namespace ContractAudit.Parser

open Parse State

variable {motive : State → List (Option Form) → Prop} {result : FormResult} {bound : Nat}
  {found : Option Form} {α : Type} {form : Form} {keyword : String}

section Read

variable (read : Parser Expr)

def wholeFunction (visibility : Visibility) (start : Location) : Parser Form := do
  let _ ← expect .leftParen "Expected '(' before function signature"
  let name ← expectName "function name"
  let params ← repeatWhile (·.sees .leftParen) parameter
  close "function signature"
  let exprs ← body read
  close s!"function '{name}'"
  pure (.function ⟨← infoFrom start, name, visibility, params, exprs⟩)

def refused {α : Type} : Parser α :=
  .interrupted

def definitionAfter (keyword : String) (start : Location) : Parser Form :=
  match keyword with
  | "define-constant" => constant read start
  | "define-public" => wholeFunction read .external start
  | "define-private" => wholeFunction read .internal start
  | "define-read-only" => wholeFunction read .readOnly start
  | "define-map" => map start
  | "define-data-var" => dataVar read start
  | "define-non-fungible-token" => nonFungible start
  | "define-fungible-token" => fungible read start
  | "define-trait" => trait start
  | "use-trait" => useTrait read start
  | "impl-trait" => implTrait read start
  | _ => refused

def definition : Parser Form := do
  let first ← advance
  let head ← peek
  if first.kind = .leftParen ∧ head.kind = .keyword then
    let _ ← advance
    definitionAfter read head.value first.location
  else
    refused

end Read

variable {read : Parser Expr} {s s' : State}

theorem refused_undone (s : State) (value : α) (s' : State) : refused s ≠ .done value s' := by
  rintro ⟨⟩

/-! ## Functions -/

theorem functionBodyUpTo_of_repeatUpTo {exprs}
    (h : repeatUpTo inBody read bound s = .done exprs s') :
    functionBodyUpTo read bound s = .done (exprs, false) s' := by
  induction bound generalizing s exprs with
  | zero =>
      cases h
      rfl
  | succ bound ih =>
      rw [repeatUpTo, ask_bind_run] at h
      rw [functionBodyUpTo, ask_bind_run]
      split at h
      · next hmore =>
          obtain ⟨first, s₁, hfirst, h⟩ := bind_eq_done.mp h
          obtain ⟨rest, s₂, hrest, h⟩ := bind_eq_done.mp h
          cases h
          have hsome : unlessInterrupted read s = .done (some first) s₁ := by
            rw [unlessInterrupted, hfirst]
          rw [if_pos hmore, bind_run_of_done hsome]
          exact bind_eq_done.mpr ⟨_, _, ih hrest, rfl⟩
      · next hmore =>
          cases h
          rw [if_neg hmore]
          rfl

theorem unlessInterrupted_clean {parser} {found : Option α}
    (horderly : Orderly parser) (h : unlessInterrupted parser s = .done found s')
    (hclean : s'.errors = []) : ∃ value, found = some value ∧ parser s = .done value s' := by
  unfold unlessInterrupted at h
  cases hstep : parser s with
  | done value s₁ =>
      simp only [hstep, Step.done.injEq] at h
      obtain ⟨rfl, rfl⟩ := h
      exact ⟨value, rfl, rfl⟩
  | interrupted s₁ =>
      simp only [hstep, Step.done.injEq] at h
      obtain ⟨rfl, rfl⟩ := h
      have hreported := (horderly.interrupted hstep).2
      simp [hclean] at hreported
  | failed error => simp [hstep] at h

theorem functionBodyUpTo_clean (horderly : Orderly read)
    {found} (h : functionBodyUpTo read bound s = .done found s')
    (hclean : s'.errors = []) :
    found.2 = false ∧ repeatUpTo inBody read bound s = .done found.1 s' := by
  induction bound generalizing s found with
  | zero =>
      cases h
      exact ⟨rfl, rfl⟩
  | succ bound ih =>
      rw [functionBodyUpTo, ask_bind_run] at h
      rw [repeatUpTo, ask_bind_run]
      split at h
      · next hmore =>
          obtain ⟨first, s₁, hfirst, h⟩ := bind_eq_done.mp h
          rw [if_pos hmore]
          cases first with
          | none =>
              cases h
              obtain ⟨_, hcontra, _⟩ := unlessInterrupted_clean horderly hfirst hclean
              cases hcontra
          | some first =>
              obtain ⟨rest, s₂, hrest, h⟩ := bind_eq_done.mp h
              cases h
              obtain ⟨hcut, hexprs⟩ := ih hrest
              have honward := (functionBodyUpTo_steady horderly bound).orderly.done hrest
              obtain ⟨_, heq, hread⟩ :=
                unlessInterrupted_clean horderly hfirst (clean_of_onward honward hclean)
              cases heq
              exact ⟨hcut, bind_eq_done.mpr ⟨_, _, hread, bind_eq_done.mpr ⟨_, _, hexprs, rfl⟩⟩⟩
      · next hmore =>
          cases h
          rw [if_neg hmore]
          exact ⟨rfl, rfl⟩

/-! ## Forms -/

/-- The runs of a plain parser are runs of the parser of a form, and all of its runs without
errors. -/
structure Realizes (parser : Parser FormResult) (plain : Parser Form) : Prop where
  run {s s' : State} {form : Form} :
    plain s = .done form s' → parser s = .done ⟨some form, false⟩ s'
  clean {s s' : State} {result : FormResult} : parser s = .done result s' → s'.errors = [] →
      ∃ form, result = ⟨some form, false⟩ ∧ plain s = .done form s'

theorem Realizes.after (first : Parser α) {next}
    {plain} (h : ∀ value, Realizes (next value) (plain value)) :
    Realizes (first >>= next) (first >>= plain) where
  run hrun := by
    obtain ⟨value, s₁, hfirst, hrest⟩ := bind_eq_done.mp hrun
    exact bind_eq_done.mpr ⟨value, s₁, hfirst, (h value).run hrest⟩
  clean hrun hclean := by
    obtain ⟨value, s₁, hfirst, hrest⟩ := bind_eq_done.mp hrun
    obtain ⟨form, hform, hplain⟩ := (h value).clean hrest hclean
    exact ⟨form, hform, bind_eq_done.mpr ⟨value, s₁, hfirst, hplain⟩⟩

theorem whole_realizes {parser} (horderly : Orderly parser) : Realizes (whole parser) parser where
  run {s s' form} hrun := by
    have hsome : unlessInterrupted parser s = .done (some form) s' := by
      rw [unlessInterrupted, hrun]
    exact bind_eq_done.mpr ⟨_, _, hsome, rfl⟩
  clean hrun hclean := by
    obtain ⟨found, s₁, hfound, hlast⟩ := bind_eq_done.mp hrun
    cases hlast
    obtain ⟨form, rfl, hform⟩ := unlessInterrupted_clean horderly hfound hclean
    exact ⟨form, rfl, hform⟩

theorem function_realizes (horderly : Orderly read) (visibility : Visibility)
    (start : Location) :
    Realizes (function read visibility start) (wholeFunction read visibility start) := by
  refine .after _ fun _ => .after _ fun name => .after _ fun params => .after _ fun _ => ⟨?_, ?_⟩
  · intro s s' form hrun
    obtain ⟨exprs, s₁, hbody, hrest⟩ := bind_eq_done.mp hrun
    obtain ⟨_, s₂, hclose, hnode⟩ := bind_eq_done.mp hrest
    cases hnode
    exact bind_eq_done.mpr ⟨_, s₁, functionBodyUpTo_of_repeatUpTo hbody,
      bind_eq_done.mpr ⟨_, s₂, hclose, rfl⟩⟩
  · intro s s' result hrun hclean
    obtain ⟨⟨exprs, cut⟩, s₁, hbody, hrest⟩ := bind_eq_done.mp hrun
    have honward : s₁.Onward s' := Behaves.goesOnward
      (.bind (behaves_ite (pure_behaves _) (close_behaves _)) fun _ => node_orderly _ _) hrest
    obtain ⟨hcut, hexprs⟩ :=
      functionBodyUpTo_clean horderly hbody (clean_of_onward honward hclean)
    cases hcut
    obtain ⟨_, s₂, hclose, hnode⟩ := bind_eq_done.mp hrest
    cases hnode
    exact ⟨_, rfl, bind_eq_done.mpr ⟨exprs, s₁, hexprs, bind_eq_done.mpr ⟨_, s₂, hclose, rfl⟩⟩⟩

theorem formAfter?_realizes (horderly : Orderly read) {rest}
    (hrest : formAfter? read keyword = some rest) (start : Location) :
    Realizes (rest start) (definitionAfter read keyword start) := by
  unfold formAfter? at hrest
  split at hrest <;> cases hrest
  · exact whole_realizes (constant_orderly horderly start)
  · exact function_realizes horderly _ start
  · exact function_realizes horderly _ start
  · exact function_realizes horderly _ start
  · exact whole_realizes (map_orderly start)
  · exact whole_realizes (dataVar_orderly horderly start)
  · exact whole_realizes (nonFungible_orderly start)
  · exact whole_realizes (fungible_orderly horderly start)
  · exact whole_realizes (trait_orderly start)
  · exact whole_realizes (useTrait_orderly horderly start)
  · exact whole_realizes (implTrait_orderly horderly start)

theorem definitionAfter_done {start}
    (h : definitionAfter read keyword start s = .done form s') :
    ∃ rest, formAfter? read keyword = some rest := by
  unfold definitionAfter at h
  split at h <;> first | exact ⟨_, rfl⟩ | cases h

theorem definition_eq_done : definition read s = .done form s' ↔
      (s.current.kind = .leftParen ∧ s.advance.current.kind = .keyword) ∧
        definitionAfter read s.advance.current.value s.current.location s.advance.advance =
          .done form s' := by
  rw [definition, advance_bind_run, peek_bind_run]
  split
  · next hkinds => simp only [hkinds, true_and, advance_bind_run]
  · next hkinds => simp [hkinds, refused]

theorem form_of_definition (horderly : Orderly read)
    (h : definition read s = .done form s') :
    Parser.form read s = .done ⟨some form, false⟩ s' := by
  obtain ⟨⟨hopen, hkind⟩, hform⟩ := definition_eq_done.mp h
  obtain ⟨rest, hrest⟩ := definitionAfter_done hform
  rw [Parser.form, advance_bind_run, if_neg (not_not.mpr hopen), peek_bind_run,
    formAt?_eq_some.mpr ⟨hkind, hrest⟩]
  exact (formAfter?_realizes horderly hrest _).run hform

theorem form_clean (horderly : Orderly read)
    (h : Parser.form read s = .done result s') (hclean : s'.errors = []) :
    ∃ form, result = ⟨some form, false⟩ ∧ definition read s = .done form s' := by
  rw [Parser.form, advance_bind_run] at h
  split at h
  · exact absurd hclean (report_dirty (fun _ => pure_behaves _) h)
  · next hopen =>
      rw [peek_bind_run] at h
      cases hat : formAt? read s.advance.current with
      | none =>
          rw [hat] at h
          exact absurd hclean (report_dirty (fun _ => pure_behaves _) h)
      | some rest =>
          rw [hat] at h
          obtain ⟨hkind, hrest⟩ := formAt?_eq_some.mp hat
          obtain ⟨form, hresult, hform⟩ :=
            (formAfter?_realizes horderly hrest _).clean h hclean
          exact ⟨form, hresult, definition_eq_done.mpr ⟨⟨not_not.mp hopen, hkind⟩, hform⟩⟩

theorem formThenResume_of_definition (horderly : Orderly read)
    (h : definition read s = .done form s') (herrors : s'.errors = s.errors) :
    formThenResume read s = .done (some form) s' := by
  refine formThenResume_eq_done.mpr ⟨_, s', form_of_definition horderly h, rfl, ?_⟩
  rw [herrors, decide_eq_false (Nat.lt_irrefl _), Bool.and_false]
  rfl

theorem formThenResume_clean (horderly : Orderly read)
    (h : formThenResume read s = .done found s') (hclean : s'.errors = []) :
    ∃ form, found = some form ∧ definition read s = .done form s' := by
  obtain ⟨result, s₁, hform, hfound, hresume⟩ := formThenResume_eq_done.mp h
  have hclean₁ := clean_of_onward ((resumeIf_behaves _ _).done hresume) hclean
  simp only [hclean₁, List.length_nil, Nat.not_lt_zero, decide_false, Bool.and_false, resumeIf,
    Bool.false_eq_true, if_false, pure_run, Step.done.injEq, true_and] at hresume
  subst hresume
  obtain ⟨form, rfl, hdefinition⟩ := form_clean horderly hform hclean
  exact ⟨form, hfound.symm, hdefinition⟩

theorem definition_starts (h : definition read s = .done form s') :
    ∃ opening keyword more, s.ahead = opening :: keyword :: more ∧
      startsDefinition (opening :: keyword :: more) = true := by
  obtain ⟨⟨hopen, hkind⟩, hform⟩ := definition_eq_done.mp h
  obtain ⟨after, hafter⟩ := definitionAfter_done hform
  have hcontains : Vocabulary.definitions.contains s.advance.current.value = true := by
    unfold formAfter? at hafter
    split at hafter <;> first | (rename_i heq; rw [heq]; decide) | cases hafter
  have hfirst : s.current.kind ≠ .endOfInput := by simp [hopen]
  have hsecond : s.advance.current.kind ≠ .endOfInput := by simp [hkind]
  obtain ⟨rest, hahead⟩ := ahead_of_current hfirst
  obtain ⟨more, hmore⟩ := ahead_of_current hsecond
  refine ⟨_, _, more, hahead.trans (congrArg _ ((ahead_advance hahead).symm.trans hmore)), ?_⟩
  rw [startsDefinition, hopen, hkind, hcontains]
  rfl

/-! ## Forms in a row -/

section Forms

variable (horderly : Orderly read)

include horderly

theorem form_onward (h : Parser.form read s = .done result s') : s.advance.Onward s' := by
  obtain ⟨first, _, hadvance, h⟩ := bind_eq_done.mp h
  cases hadvance
  split at h
  · exact ((report_behaves _ _ _ rfl).bind fun _ => pure_behaves _).done h
  · rw [peek_bind_run] at h
    cases hrest : formAt? read s.advance.current with
    | some rest =>
        rw [hrest] at h
        exact (advance_behaves.bind fun _ =>
          (formAfter?_steady horderly (formAt?_eq_some.mp hrest).2 _).orderly).done h
    | none =>
        rw [hrest] at h
        exact ((report_behaves _ _ _ rfl).bind fun _ => pure_behaves _).done h

theorem length_formThenResume
    (h : formThenResume read s = .done found s') (hmore : s.ahead ≠ []) :
    s'.ahead.length < s.ahead.length := by
  obtain ⟨result, s₁, hform, _, hresume⟩ := formThenResume_eq_done.mp h
  have honward := (form_onward horderly hform).trans ((resumeIf_behaves _ _).done hresume)
  have hlength := honward.ahead.length_le
  have hpos := List.length_pos_iff.mpr hmore
  rw [length_advance] at hlength
  omega

omit horderly in
theorem forms_nil (h : s.ahead = []) : forms read s = .done [] s := by
  rw [forms, repeatWhile, h]
  rfl

omit horderly in
theorem more_iff : (!s.atEnd) = true ↔ s.ahead ≠ [] := by
  simp [atEnd_eq_isEmpty]

theorem forms_cons (h : s.ahead ≠ []) : forms read s = (do
      let first ← formThenResume read
      let rest ← forms read
      pure (first :: rest)) s := by
  have hunfold : forms read s =
      round (fun state => !state.atEnd) (formThenResume read) (forms read) s :=
    congrFun (repeatWhile_runsOut (fun _ => more_iff.mp) fun _ _ _ hmore hrun =>
      length_formThenResume horderly hrun (more_iff.mp hmore)).unfolds s
  rw [hunfold, round, ask_bind_run, if_pos (more_iff.mpr h)]

@[elab_as_elim]
theorem forms_rec (stop : s'.ahead = [] → motive s' [])
    (next : ∀ {s s₁ first rest}, s.ahead ≠ [] → formThenResume read s = .done first s₁ →
      forms read s₁ = .done rest s' → motive s₁ rest → motive s (first :: rest))
    {found} (h : forms read s = .done found s') : motive s found := by
  induction hlength : s.ahead.length using Nat.strongRecOn generalizing s found with
  | ind length ih =>
      by_cases hahead : s.ahead = []
      · rw [forms_nil hahead] at h
        cases h
        exact stop hahead
      · rw [forms_cons horderly hahead] at h
        obtain ⟨first, s₁, hfirst, h⟩ := bind_eq_done.mp h
        obtain ⟨rest, s₂, hrest, h⟩ := bind_eq_done.mp h
        cases h
        have hshorter := length_formThenResume horderly hfirst hahead
        exact next hahead hfirst hrest (ih _ (by omega) hrest rfl)

end Forms

theorem forms_orderly : Orderly (forms expr) :=
  repeatWhile_behaves formThenResume_orderly

theorem forms_end {found} (h : forms expr s = .done found s') : s'.ahead = [] :=
  forms_rec expr_orderly (motive := fun _ _ => s'.ahead = []) id (fun _ _ _ ih => ih) h

end ContractAudit.Parser
