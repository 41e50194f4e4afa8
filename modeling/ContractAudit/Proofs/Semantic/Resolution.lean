import ContractAudit.Proofs.Parse.Nodes
import ContractAudit.Proofs.Semantic.Visit
import ContractAudit.Proofs.Token.Lexical
import Mathlib.Data.List.Pairwise

/-!
# Names are resolved lexically

The analysis of a contract declares its definitions and then settles what the forms mention. No two
nodes of a parsed contract have the same number, so what is recorded about an identifier stays; and
no two names of a parsed text start at the same place, so an error tells the identifier that it is
about.
-/

namespace ContractAudit

open List Mention Environment Parse Node Form

variable {environment : Environment} {id : Nat} {table : Table Nat Resolution} {α : Type}
  {error : Diagnostic} {form : Form}

/-! ## Declared names -/

/-- The name that a form declares as a thing of a kind. A definition whose name could not be read
declares nothing. -/
def Form.declares? (kind : Referent) (form : Form) : Option String :=
  form.defines?.bind fun (found, name) =>
    if found = kind ∧ name ≠ placeholder then some name else none

theorem Form.declares?_eq_some {kind : Referent} {name : String} : form.declares? kind = some name ↔
      form.defines? = some (kind, name) ∧ name ≠ placeholder := by
  unfold declares?
  cases form.defines? with
  | none => simp
  | some found =>
      obtain ⟨found, other⟩ := found
      grind

/-- The names that a contract declares as things of a kind, in the order of declaration. -/
def Contract.namesOf (contract : Contract) (kind : Referent) : List String :=
  contract.body.filterMap (declares? kind)

namespace Environment

theorem keys_declareIn (table : Table String α) (name : String) (entry : α) :
    (declareIn table name entry).keys =
      if name = placeholder then table.keys else addNew table.keys name := by
  unfold declareIn isNew addNew
  by_cases hname : name = placeholder
  · simp [hname]
  · have hcontains : table.contains name = true ↔ name ∈ table.keys := Table.contains_iff
    by_cases hmem : name ∈ table.keys
    · simp [hname, hmem, hcontains.mpr hmem]
    · rw [if_neg hname, if_neg hmem, if_pos (by simpa [hname] using mt hcontains.mp hmem)]
      exact (congrArg (map Prod.fst) (Table.entries_insert_of_not_mem hmem entry)).trans map_append

theorem names_declare (environment : Environment) (form : Form) (kind : Referent) :
    (environment.declare form).1.names kind =
      (form.declares? kind).toList.foldl addNew (environment.names kind) := by
  cases form <;> cases kind <;>
    simp [declare, names, declares?, defines?, keys_declareIn]
  all_goals split <;> rfl

theorem names_declareAll (environment : Environment) (forms : List Form) (kind : Referent) :
    (environment.declareAll forms).1.names kind =
      (forms.filterMap (declares? kind)).foldl addNew (environment.names kind) := by
  induction forms generalizing environment with
  | nil => rfl
  | cons form rest ih =>
      show ((environment.declare form).1.declareAll rest).1.names kind = _
      rw [ih, names_declare, ← foldl_append, filterMap_cons]
      cases form.declares? kind <;> rfl

theorem kind_of_duplicate? {table : Table String α} {label name : String} {location : Location}
    (h : duplicate? table label name location = some error) :
    error.phase = .semantic ∧ error.code = .duplicateDefinition := by
  unfold duplicate? at h
  split at h
  · cases h
    exact ⟨rfl, rfl⟩
  · cases h

theorem kind_of_declare (h : (environment.declare form).2 = some error) :
    error.phase = .semantic ∧ error.code = .duplicateDefinition := by
  cases form with
  | implTrait info reference => cases h
  | _ => exact kind_of_duplicate? h

theorem kind_of_mem_declareAll {forms : List Form} (h : error ∈ (environment.declareAll forms).2) :
    error.phase = .semantic ∧ error.code = .duplicateDefinition := by
  induction forms generalizing environment with
  | nil => cases h
  | cons form rest ih =>
      rw [declareAll, mem_append, Option.mem_toList] at h
      rcases h with h | h
      · exact kind_of_declare h
      · exact ih h

end Environment

theorem globalReferent?_congr {first second : Referent → String → Bool} {name : String}
    (h : ∀ kind, first kind name = second kind name) :
    globalReferent? first name = globalReferent? second name := by
  simp only [globalReferent?, h]

/-! ## Recorded and reported mentions -/

namespace Mention

variable {defines : Referent → String → Bool} {mention : Mention} {mentions : List Mention}

theorem get?_enter_of_ne (h : id ≠ mention.info.id) :
    (enter defines table mention).get? id = table.get? id := by
  unfold enter
  split
  · exact table.get?_insert_of_ne _ h
  · rfl

theorem get?_enter_self (h : table.get? mention.info.id = none) :
    (enter defines table mention).get? mention.info.id = mention.resolution? defines := by
  unfold enter
  cases mention.resolution? defines with
  | some resolution => exact table.get?_insert_self _ _
  | none => exact h

theorem get?_foldl_enter_of_not_mem (h : id ∉ mentions.map (·.info.id))
    (table : Table Nat Resolution) :
    (mentions.foldl (enter defines) table).get? id = table.get? id := by
  induction mentions generalizing table with
  | nil => rfl
  | cons first rest ih =>
      rw [map_cons, mem_cons, not_or] at h
      rw [foldl_cons, ih h.2, get?_enter_of_ne h.1]

theorem get?_foldl_enter (hdistinct : (mentions.map (·.info.id)).Nodup)
    (hmention : mention ∈ mentions)
    (hfree : table.get? mention.info.id = none) :
    (mentions.foldl (enter defines) table).get? mention.info.id = mention.resolution? defines := by
  induction mentions generalizing table with
  | nil => cases hmention
  | cons first rest ih =>
      rw [map_cons, nodup_cons] at hdistinct
      rw [foldl_cons]
      rcases mem_cons.mp hmention with rfl | hrest
      · -- No later mention has this number, so the entry is not overwritten.
        rw [get?_foldl_enter_of_not_mem hdistinct.1, get?_enter_self hfree]
      · have hne : mention.info.id ≠ first.info.id := by
          intro heq
          exact hdistinct.1 (heq ▸ mem_map_of_mem hrest)
        exact ih hdistinct.2 hrest (by rw [get?_enter_of_ne hne, hfree])

theorem location_of_error? (h : mention.error? defines = some error) :
    error.code = .undefinedIdentifier ∧ error.location = mention.info.span.start ∧
      mention.name ≠ placeholder ∧ mention.resolution? defines = none := by
  unfold error? at h
  split at h
  · next hundefined =>
      cases h
      exact ⟨rfl, rfl, hundefined⟩
  · cases h

end Mention

/-! ## Identifiers of a parsed contract -/

theorem eq_of_nodup_filterMap {β : Type} {f : α → Option β} {items : List α}
    (h : (items.filterMap f).Nodup) {x y : α} (hx : x ∈ items) (hy : y ∈ items) {value : β}
    (hfx : f x = some value) (hfy : f y = some value) : x = y := by
  have hsymm : Std.Symm fun a b => ∀ c, f a = some c → ∀ d, f b = some d → c ≠ d :=
    ⟨fun a b hab c hc d hd => (hab d hd c hc).symm⟩
  by_contra hne
  exact (pairwise_filterMap.mp h).forall hx hy hne value hfx value hfy rfl

theorem Node.id_of_identifier? {node : Node} {identifier : NodeInfo × String}
    (h : node.identifier? = some identifier) : identifier.1.id = node.info.id := by
  unfold identifier? at h
  split at h <;> cases h
  rfl

namespace Contract

variable {contract : Contract} {info : NodeInfo} {name : String} {bound : List String}

theorem nodup_id_mentions (h : (contract.postorder.map (·.info.id)).Nodup) :
    (contract.mentions.map (·.info.id)).Nodup := by
  obtain ⟨identifiers, hperm, hsublist⟩ := contract.mentions_subperm
  have hdistinct : (identifiers.map (·.1.id)).Nodup :=
    ((hsublist.map _).trans (map_id_filterMap_sublist
      (fun _ _ => id_of_identifier?) _)).nodup h
  have hmentions := (hperm.map (·.1.id)).nodup_iff.mp hdistinct
  simpa [Function.comp_def, identifier] using hmentions

theorem eq_of_location_eq (h : (contract.postorder.filterMap namePlace?).Nodup)
    {first second : Mention} (hfirst : first ∈ contract.mentions)
    (hsecond : second ∈ contract.mentions) (hname : first.name ≠ placeholder)
    (hname' : second.name ≠ placeholder)
    (hlocation : first.info.span.start = second.info.span.start) : first = second := by
  obtain ⟨identifiers, hperm, hsublist⟩ := contract.mentions_subperm
  have hplaces : contract.postorder.filterMap namePlace? =
      (contract.postorder.filterMap identifier?).filterMap identifierPlace? := by
    rw [filterMap_filterMap]
    rfl
  rw [hplaces] at h
  have hmentions := (hperm.filterMap identifierPlace?).nodup_iff.mp ((hsublist.filterMap _).nodup h)
  rw [filterMap_map] at hmentions
  have hplace : identifierPlace? first.identifier = some second.info.span.start := by
    simp [identifierPlace?, identifier, hname, hlocation]
  have hplace' : identifierPlace? second.identifier = some second.info.span.start := by
    simp [identifierPlace?, identifier, hname']
  exact eq_of_nodup_filterMap hmentions hfirst hsecond hplace hplace'

def declared (contract : Contract) : Referent → String → Bool :=
  (empty.declareAll contract.body).1.declares

theorem names_declareAll_empty (kind : Referent) :
    (empty.declareAll contract.body).1.names kind = distinct (contract.namesOf kind) := by
  rw [names_declareAll]
  cases kind <;> rfl

theorem mem_namesOf_iff {kind : Referent} : name ∈ contract.namesOf kind ↔
      contract.defines kind name = true ∧ name ≠ placeholder := by
  simp only [namesOf, mem_filterMap, declares?_eq_some, defines, any_eq_true,
    decide_eq_true_eq]
  grind

theorem declared_iff {kind : Referent} : contract.declared kind name = true ↔
      contract.defines kind name = true ∧ name ≠ placeholder := by
  rw [declared, declares_iff, names_declareAll_empty, mem_distinct, mem_namesOf_iff]

theorem globalReferent?_declared (hname : name ≠ placeholder) :
    globalReferent? contract.declared name = globalReferent? contract.defines name := by
  refine globalReferent?_congr fun kind => ?_
  rw [Bool.eq_iff_iff, declared_iff]
  exact and_iff_left hname

end Contract

theorem analyzeContract_met (contract : Contract) : (analyzeContract contract).facts.resolutions =
        contract.mentions.foldl (enter contract.declared) .empty ∧
      (analyzeContract contract).errors = (empty.declareAll contract.body).2 ++
        contract.mentions.filterMap (error? contract.declared) := by
  have hmet := (Analyzer.visitForms_noted contract.body
    ⟨(empty.declareAll contract.body).1, .empty,
      (empty.declareAll contract.body).2, [], [], .empty⟩).met
  exact ⟨hmet.resolutions, hmet.errors⟩

theorem names_analyzeContract (contract : Contract) (kind : Referent) :
    (analyzeContract contract).environment.names kind = distinct (contract.namesOf kind) := by
  have hnames : (analyzeContract contract).environment.names =
      (empty.declareAll contract.body).1.names :=
    (Analyzer.visitForms_noted contract.body _).met.names
  rw [hnames, Contract.names_declareAll_empty]

def SemanticResult.ReportsUndefined (result : SemanticResult) (location : Location) : Prop :=
  ∃ error ∈ result.errors, error.code = .undefinedIdentifier ∧ error.location = location

namespace Contract

variable {contract : Contract} {info : NodeInfo} {name : String} {bound : List String}

theorem get?_resolutions_of_mem (hnumbers : (contract.postorder.map (·.info.id)).Nodup)
    {mention : Mention} (hmention : mention ∈ contract.mentions) :
    (analyzeContract contract).facts.resolutions.get? mention.info.id =
      mention.resolution? contract.declared := by
  rw [(analyzeContract_met contract).1]
  exact get?_foldl_enter (nodup_id_mentions hnumbers) hmention rfl

variable (h : contract.Occurs info name bound) (hname : name ≠ placeholder)

include h hname

theorem Occurs.get?_resolutions (hnumbers : (contract.postorder.map (·.info.id)).Nodup) :
    (analyzeContract contract).facts.resolutions.get? info.id =
      if name ∈ bound then some ⟨.local, name⟩ else globalReferent? contract.defines name := by
  obtain ⟨all, hmention, hall⟩ := h.exists_mention
  rw [get?_resolutions_of_mem hnumbers hmention, ← globalReferent?_declared hname]
  simp [resolution?, hname, hall]

theorem Occurs.reportsUndefined (hbound : name ∉ bound)
    (hglobal : globalReferent? contract.defines name = none) :
    (analyzeContract contract).ReportsUndefined info.span.start := by
  obtain ⟨all, hmention, hall⟩ := h.exists_mention
  rw [← globalReferent?_declared hname] at hglobal
  have hresolution :
      resolution? contract.declared ⟨info, name, .expression all⟩ = none := by
    simp [resolution?, hname, hall, hbound, hglobal]
  refine ⟨.error .semantic .undefinedIdentifier s!"Undefined identifier: {name}" info.span.start,
    ?_, rfl, rfl⟩
  rw [(analyzeContract_met contract).2, mem_append, mem_filterMap]
  exact .inr ⟨_, hmention, by simp [error?, hname, hresolution]⟩

theorem Occurs.undefined_of_reports (hplaces : (contract.postorder.filterMap namePlace?).Nodup)
    (hreports : (analyzeContract contract).ReportsUndefined info.span.start) :
    name ∉ bound ∧ globalReferent? contract.defines name = none := by
  obtain ⟨all, hmention, hall⟩ := h.exists_mention
  obtain ⟨error, herror, hcode, hlocation⟩ := hreports
  rw [(analyzeContract_met contract).2, mem_append, mem_filterMap] at herror
  rcases herror with herror | ⟨other, hother, herror⟩
  · -- The errors from before the visit are about definitions.
    rw [(kind_of_mem_declareAll herror).2] at hcode
    cases hcode
  · obtain ⟨_, hplace, hname', hresolution⟩ := location_of_error? herror
    -- The mention that the error is about stands at the same place, so it is this one.
    have heq := eq_of_location_eq hplaces hother hmention hname' hname (hplace.symm.trans hlocation)
    subst heq
    by_cases hbound : name ∈ bound
    · simp [resolution?, hname, hall, hbound] at hresolution
    · refine ⟨hbound, ?_⟩
      simpa [resolution?, hname, hall, hbound, globalReferent?_declared hname] using
        hresolution

end Contract

/-- Identifiers are resolved lexically. In every contract that a parse gives, an identifier that
stands as an expression is recorded as a local name exactly if its name is bound around it, and
otherwise as the first of a constant, a data variable, a function, a builtin name and another
contract that applies. If none does it is reported at its place; in the parse of a text it is
reported there only then. A visit leaves the scope as it found it. -/
theorem analyzeContract_resolves_lexically : (∀ tokens result, parseTokens tokens = .ok result →
      ∀ info name bound, result.contract.Occurs info name bound → name ≠ Parse.placeholder →
        (((analyzeContract result.contract).facts.resolutions.get? info.id).map Resolution.kind =
            some .local ↔ name ∈ bound) ∧
          (name ∉ bound → (analyzeContract result.contract).facts.resolutions.get? info.id =
            globalReferent? result.contract.defines name) ∧
          (name ∉ bound → globalReferent? result.contract.defines name = none →
            (analyzeContract result.contract).ReportsUndefined info.span.start)) ∧
      (∀ source result, parse source = .ok result →
        ∀ info name bound, result.contract.Occurs info name bound → name ≠ Parse.placeholder →
          ((analyzeContract result.contract).ReportsUndefined info.span.start ↔
            name ∉ bound ∧ globalReferent? result.contract.defines name = none)) ∧
      ∀ owner expr (analysis : Analysis),
        (Analyzer.visit owner expr analysis).2.scope = analysis.scope := by
  refine ⟨?_, ?_, Analyzer.scope_visit⟩
  · intro tokens result hparse info name bound hoccurs hname
    have hrecorded := hoccurs.get?_resolutions hname (parseTokens_made hparse).1
    refine ⟨?_, fun hbound => by rw [hrecorded, if_neg hbound], hoccurs.reportsUndefined hname⟩
    rw [hrecorded]
    by_cases hbound : name ∈ bound
    · simp [hbound]
    · rw [if_neg hbound]
      exact ⟨fun hlocal => absurd hlocal globalReferent?_ne_local, fun h => absurd h hbound⟩
  · intro source result hparse info name bound hoccurs hname
    have hplaces := (parseTokens_made hparse).2.nodup (nodup_location_tokenize source)
    exact ⟨hoccurs.undefined_of_reports hname hplaces,
      fun h => hoccurs.reportsUndefined hname h.1 h.2⟩

def shadowing : String :=
  "(define-constant x u1) (define-public (f (y uint)) (let ((x y)) (match (g x) v (+ v x) w gone)))"

/-- A mention of an expression, by its name and the names bound around it. -/
def Contract.mentionsExpr (contract : Contract) (name : String) (bound : List String) : Bool :=
  contract.mentions.any fun mention => mention.name = name && mention.role = .expression bound

theorem Contract.occurs_of_mentionsExpr {contract : Contract} {name : String} {all : List String}
    (h : contract.mentionsExpr name all = true) :
    ∃ info bound, contract.Occurs info name bound ∧ ∀ other, other ∈ all ↔ other ∈ bound := by
  obtain ⟨⟨info, _, _⟩, hmention, hequal⟩ := any_eq_true.mp h
  simp only [Bool.and_eq_true, decide_eq_true_eq] at hequal
  obtain ⟨rfl, rfl⟩ := hequal
  exact ⟨info, Contract.occurs_of_mem_mentions hmention⟩

theorem analyzeContract_resolves_shadowing :
    ∃ result, parse shadowing = .ok result ∧ result.contract.defines .constant "x" = true ∧
      (∃ info bound, result.contract.Occurs info "x" bound ∧
        ((analyzeContract result.contract).facts.resolutions.get? info.id).map Resolution.kind =
          some .local) ∧
      ∃ info bound, result.contract.Occurs info "gone" bound ∧
        (analyzeContract result.contract).ReportsUndefined info.span.start := by
  obtain ⟨result, hparse, hconstant, hlocal, hundefined, hglobal⟩ :
      ∃ result, parse shadowing = .ok result ∧ result.contract.defines .constant "x" = true ∧
        result.contract.mentionsExpr "x" ["v", "x", "y"] = true ∧
        result.contract.mentionsExpr "gone" ["w", "x", "y"] = true ∧
        globalReferent? result.contract.defines "gone" = none :=
    exists_parse rfl (by decide +kernel)
  obtain ⟨info, bound, hoccurs, hbound⟩ := Contract.occurs_of_mentionsExpr hlocal
  obtain ⟨place, free, hoccurs', hfree⟩ := Contract.occurs_of_mentionsExpr hundefined
  refine ⟨result, hparse, hconstant, ⟨info, bound, hoccurs, ?_⟩, place, free, hoccurs', ?_⟩
  · exact (analyzeContract_resolves_lexically.1 _ result hparse info "x" bound hoccurs
      (by decide)).1.mpr ((hbound "x").mp (by decide))
  · refine (analyzeContract_resolves_lexically.2.1 shadowing result hparse place "gone" free
      hoccurs' (by decide)).mpr ⟨fun h => ?_, hglobal⟩
    exact absurd ((hfree "gone").mpr h) (by decide)

end ContractAudit
