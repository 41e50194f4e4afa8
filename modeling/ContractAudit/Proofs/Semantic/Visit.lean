import ContractAudit.Proofs.Semantic.Uses

/-!
# What a visit does

A visit of an expression leaves the scope as it found it. It settles the identifiers that the
expression mentions, one after the other, records each call when its arguments have been visited,
and notes what the identifiers and the calls use. `Noted` says what has been settled, recorded and
noted between two states of an analysis, `Visits` says it of a step; it passes from the parts of a
visit to the whole.
-/

namespace ContractAudit

open List Builtin Environment ContractAudit.Expr Prod Parse Option Use Table Analysis

open Facts (CallSite)

variable {step : Analyzer ValueType} {args : List Expr} {role : Role}

def CallSite.enter (calls : Table Nat CallInfo) (site : CallSite) : Table Nat CallInfo :=
  calls.insert site.node.id site.info

/-- Between two states of an analysis some mentions have been settled, some calls recorded and some
uses noted, and nothing else has changed but the scope and the types. -/
structure Noted (mentions : List Mention) (sites : List CallSite) (uses : List Use)
    (before after : Analysis) : Prop where
  met : Met mentions before after
  calls : after.facts.calls = sites.foldl CallSite.enter before.facts.calls
  marked : Marked uses before after

namespace Noted

variable {before middle after : Analysis} {mention : Mention} {mentions others : List Mention}
  {sites more : List CallSite} {uses first second : List Use}

theorem refl (analysis : Analysis) : Noted [] [] [] analysis analysis :=
  ⟨.refl analysis, rfl, .quiet rfl rfl rfl⟩

theorem append (hfirst : Noted mentions sites first before middle)
    (hsecond : Noted others more second middle after) :
    Noted (mentions ++ others) (sites ++ more) (first ++ second) before after where
  met := hfirst.met.append hsecond.met
  calls := by rw [hsecond.calls, hfirst.calls, foldl_append]
  marked := hfirst.marked.append hsecond.marked

theorem congr (h : Noted mentions sites first before after)
    (hsame : ∀ use, use ∈ first ↔ use ∈ second) : Noted mentions sites second before after :=
  ⟨h.met, h.calls, h.marked.congr hsame⟩

theorem rescope (h : Noted mentions sites uses before after) (outer inner : Scope) :
    Noted mentions sites uses { before with scope := outer } { after with scope := inner } where
  met := ⟨h.met.names, h.met.resolutions, h.met.errors⟩
  calls := h.calls
  marked := ⟨h.marked.environment, h.marked.referrers, h.marked.referred, h.marked.warnings⟩

theorem retype (h : Noted mentions sites uses before after) {change : Environment → Environment}
    (hchange : (change after.environment).untyped = after.environment.untyped) :
    Noted mentions sites uses before (after.changeEnvironment change) := by
  have hmarked : Marked uses before (after.changeEnvironment change) :=
    ⟨hchange.trans h.marked.environment, h.marked.referrers, h.marked.referred, h.marked.warnings⟩
  exact ⟨⟨hmarked.names, h.met.resolutions, h.met.errors⟩, h.calls, hmarked⟩

theorem of_resolution {resolution : Resolution}
    (h : mention.resolution? before.environment.declares = some resolution)
    (hmarked : Marked uses before after)
    (hresolutions : after.facts.resolutions =
      before.facts.resolutions.insert mention.info.id resolution)
    (herrors : after.errors = before.errors) (hcalls : after.facts.calls = before.facts.calls) :
    Noted [mention] [] uses before after :=
  ⟨.of_resolution h hmarked.names hresolutions herrors, hcalls, hmarked⟩

theorem of_undefined (hname : mention.name ≠ placeholder)
    (h : mention.resolution? before.environment.declares = none) :
    Noted [mention] [] [] before (before.reportError .undefinedIdentifier
      s!"Undefined identifier: {mention.name}" mention.info.span.start) :=
  ⟨.of_undefined hname h, rfl, .quiet rfl rfl rfl⟩

theorem of_placeholder (hname : mention.name = placeholder)
    (h : mention.resolution? before.environment.declares = none) :
    Noted [mention] [] [] before before :=
  ⟨.of_placeholder hname h, rfl, .quiet rfl rfl rfl⟩

end Noted

def Environment.returnType (environment : Environment) (callee : String) : ValueType :=
  ((environment.functions.get? callee).map FunctionEntry.returnType).getD .uint

/-- Between two states of an analysis types have been recorded of some nodes only, and a call among
them that is of no builtin function has the return type that its callee has so far. -/
structure Typed (nodes : List Node) (before after : Analysis) : Prop where
  functions : after.environment.functions = before.environment.functions
  others : ∀ id ∉ nodes.map (·.info.id), after.facts.types.get? id = before.facts.types.get? id
  calls : (nodes.map (·.info.id)).Nodup → ∀ site ∈ callSites nodes,
    isFunction site.info.name = false →
      after.facts.types.get? site.node.id = some (before.environment.returnType site.info.name)

namespace Typed

variable {before middle after : Analysis} {nodes more : List Node}

section

variable (hcalls : callSites nodes = [])
  (hfunctions : after.environment.functions = before.environment.functions)

include hcalls hfunctions

theorem plain (hothers : ∀ id ∉ nodes.map (·.info.id),
      after.facts.types.get? id = before.facts.types.get? id) : Typed nodes before after :=
  ⟨hfunctions, hothers, by simp [hcalls]⟩

theorem quiet (htypes : after.facts.types = before.facts.types) : Typed nodes before after :=
  .plain hcalls hfunctions fun _ _ => by rw [htypes]

end

theorem of_record {node : Node} (hcall : node.callSite? = none)
    (hfunctions : after.environment.functions = before.environment.functions) {type : ValueType}
    (htypes : after.facts.types = before.facts.types.insert node.info.id type) :
    Typed [node] before after := by
  refine .plain (callSites_cons hcall []) hfunctions fun id hid => ?_
  rw [htypes, get?_insert_of_ne _ _ (by simpa using hid)]

theorem append (hfirst : Typed nodes before middle) (hsecond : Typed more middle after) :
    Typed (nodes ++ more) before after where
  functions := hsecond.functions.trans hfirst.functions
  others id hid := by
    rw [map_append, mem_append, not_or] at hid
    rw [hsecond.others id hid.2, hfirst.others id hid.1]
  calls hdistinct site hsite hplain := by
    rw [map_append, nodup_append] at hdistinct
    rw [callSites_append, mem_append] at hsite
    rcases hsite with hsite | hsite
    · obtain ⟨node, hnode, hnodeSite⟩ := mem_filterMap.mp hsite
      have hapart : site.node.id ∉ more.map (·.info.id) := fun hmem =>
        hdistinct.2.2 _ (mem_map_of_mem hnode) _ hmem (Node.id_of_callSite? hnodeSite).symm
      rw [hsecond.others _ hapart, hfirst.calls hdistinct.1 site hsite hplain]
    · rw [hsecond.calls hdistinct.2.1 site hsite hplain, returnType, hfirst.functions]
      rfl

theorem preceded {taken : List Node} (hfirst : Typed taken before middle)
    (htaken : ∀ node ∈ taken, node ∈ nodes) (h : Typed nodes middle after) :
    Typed nodes before after where
  functions := h.functions.trans hfirst.functions
  others id hid := by
    have hfree : id ∉ taken.map (·.info.id) := fun hmem => by
      obtain ⟨node, hnode, rfl⟩ := mem_map.mp hmem
      exact hid (mem_map_of_mem (htaken node hnode))
    rw [h.others id hid, hfirst.others id hfree]
  calls hdistinct site hsite hplain := by
    rw [h.calls hdistinct site hsite hplain, returnType, hfirst.functions]
    rfl

end Typed

/-- Between two states of an analysis that have one scope some mentions have been settled, some
calls recorded and some uses noted, and types have been recorded of some nodes. -/
structure Settled (mentions : List Mention) (sites : List CallSite) (uses : List Use)
    (nodes : List Node) (before after : Analysis) : Prop where
  scope : after.scope = before.scope
  noted : Noted mentions sites uses before after
  typed : Typed nodes before after

def Mention.node (mention : Mention) : Node :=
  .expr (.identifier mention.info mention.name)

namespace Analyzer

variable {α β : Type} {owner callee : String} {bound opened inner : List String}
  {mentions others : List Mention} {nodes more : List Node} {form : Form} (message : String)
  (use : Use) (location : Location)

/-! ## Names -/

theorem storageTarget_settled (huse : ∀ function owner, use ≠ .function function owner)
    (info : NodeInfo) (type : Environment → ValueType) (analysis : Analysis) :
    Settled [⟨info, use.target.name, .storage use.target.kind⟩] []
      (if use.target.name = placeholder then none else some use).toList
      [.expr (.identifier info use.target.name)] analysis
      (storageTarget use info type analysis).2 := by
  rw [storageTarget]
  by_cases hname : use.target.name = placeholder
  · rw [if_pos hname, if_pos hname]
    exact ⟨rfl, .of_placeholder hname (by simp [Mention.resolution?, hname]), .quiet rfl rfl rfl⟩
  rw [if_neg hname, if_neg hname, get_bind_run]
  cases hdeclared : analysis.environment.declares use.target.kind use.target.name with
  | true =>
      have hresolution : Mention.resolution? analysis.environment.declares
          ⟨info, use.target.name, .storage use.target.kind⟩ = some use.target := by
        simp [Mention.resolution?, hname, hdeclared]
      exact ⟨rfl, .of_resolution hresolution (.of_use huse rfl rfl rfl) rfl rfl rfl,
        .of_record rfl (by cases use <;> rfl) rfl⟩
  | false =>
      have hnone : Mention.resolution? analysis.environment.declares
          ⟨info, use.target.name, .storage use.target.kind⟩ = none := by
        simp [Mention.resolution?, hname, hdeclared]
      have henvironment := congrArg environment (use_of_not_declares hdeclared)
      exact ⟨rfl, ⟨.of_undefined hname hnone, rfl, .of_use huse henvironment.symm rfl rfl⟩,
        .quiet rfl rfl rfl⟩

/-- A step that settles the argument of a call that is taken as a name, gives its position and notes
the use of it. -/
structure Takes (found : Option (Nat × Mention)) (use? : Option Use)
    (step : Analyzer (Option (Nat × ValueType))) : Prop where
  position : ∀ analysis : Analysis, (step analysis).1.map fst = found.map fst
  settled : ∀ analysis : Analysis, Settled (found.toList.map snd) [] use?.toList
    (found.toList.map (·.2.node)) analysis (step analysis).2

theorem Takes.none : Takes none none (Pure.pure none) :=
  ⟨fun _ => rfl, fun analysis => ⟨rfl, .refl analysis, .quiet rfl rfl rfl⟩⟩

theorem Takes.some {position : Nat} {mention : Mention} {use? : Option Use}
    (h : ∀ analysis : Analysis,
      Settled [mention] [] use?.toList [mention.node] analysis (step analysis).2) :
    Takes (some (position, mention)) use? (do Pure.pure (some (position, ← step))) :=
  ⟨fun _ => rfl, h⟩

theorem storageTarget_takes (huse : ∀ function owner, use ≠ .function function owner)
    (info : NodeInfo) (type : Environment → ValueType) :
    Takes (some (0, ⟨info, use.target.name, .storage use.target.kind⟩))
      (if use.target.name = placeholder then none else some use)
      (do Pure.pure (some (0, ← storageTarget use info type))) :=
  .some (storageTarget_settled use huse info type)

theorem wordArgument_takes (position : Nat) (info : NodeInfo) (kind : Referent) (name : String) :
    Takes (some (position, ⟨info, name, .word kind⟩)) none
      (do Pure.pure (some (position, ← wordArgument info kind name))) :=
  .some fun _ => ⟨rfl, .of_resolution rfl (.quiet rfl rfl rfl) rfl rfl rfl, .of_record rfl rfl rfl⟩

theorem remoteFunction_takes (args : List Expr) : Takes (Mention.ofCall? "contract-call?" args) none
      (specialArgument.remoteFunction "contract-call?" args) := by
  have hrole : nameArgument? "contract-call?" = some (1, .word .contractFunction) := by
    decide
  unfold Mention.ofCall?
  match args with
  | [] => exact .none
  | [_] => exact .none
  | _ :: second :: _ =>
      cases second with
      | identifier info name => exact wordArgument_takes 1 info .contractFunction name
      | _ => exact .none

section

variable (h : callee ≠ "contract-call?")

include h

theorem remoteFunction_eq (args : List Expr) :
    specialArgument.remoteFunction callee args = Pure.pure none := by
  unfold specialArgument.remoteFunction
  split
  · exact absurd rfl h
  · rfl

theorem nameArgument?_position {position : Nat}
    (hrole : nameArgument? callee = some (position, role)) : position = 0 := by
  unfold nameArgument? at hrole
  split_ifs at hrole <;> cases hrole <;> rfl

theorem ofCall?_eq_none (hfirst : ∀ info name, args[0]? ≠ some (.identifier info name)) :
    Mention.ofCall? callee args = none := by
  rw [eq_none_iff_forall_ne_some]
  rintro ⟨position, mention⟩ hcall
  obtain ⟨hrole, harg⟩ := Mention.ofCall?_eq_some.mp hcall
  cases nameArgument?_position h hrole
  exact hfirst _ _ harg

theorem specialArgument_first_takes (info : NodeInfo) (name : String) (rest : List Expr) :
    Takes (Mention.ofCall? callee (.identifier info name :: rest))
      (ofCall? callee (.identifier info name :: rest))
      (specialArgument callee (.identifier info name :: rest)) := by
  -- All sides try the families of builtin functions in the same order.
  simp only [specialArgument, ofCall?, Mention.ofCall?, nameArgument?, contains_eq_mem,
    decide_eq_true_eq, remoteFunction_eq h, if_neg h, mapTarget_eq, variableTarget_eq,
    tokenTarget_eq]
  by_cases hmap : callee ∈ mapOperations
  · simp only [if_pos hmap]
    exact storageTarget_takes (.map name _) (by simp) info _
  by_cases hvariable : callee ∈ variableOperations
  · simp only [if_neg hmap, if_pos hvariable]
    exact storageTarget_takes (.variable name _) (by simp) info _
  by_cases htoken : callee ∈ tokenOperations
  · simp only [if_neg hmap, if_neg hvariable, if_pos htoken]
    exact storageTarget_takes (.token name) (by simp) info _
  simp only [if_neg hmap, if_neg hvariable, if_neg htoken, ite_self]
  split_ifs
  · exact wordArgument_takes 0 info .tupleKey name
  · exact wordArgument_takes 0 info .blockProperty name
  · exact .none

end

theorem specialArgument_takes (callee : String) (args : List Expr) :
    Takes (Mention.ofCall? callee args) (ofCall? callee args) (specialArgument callee args) := by
  by_cases hremote : callee = "contract-call?"
  · subst hremote
    have hspecial : specialArgument "contract-call?" args =
        specialArgument.remoteFunction "contract-call?" args ∧
          ofCall? "contract-call?" args = none := by
      rcases args with _ | ⟨first, rest⟩
      · exact ⟨rfl, rfl⟩
      · cases first <;> simp [specialArgument, ofCall?, mapOperations,
          variableOperations, tokenOperations, blockInfo]
    rw [hspecial.1, hspecial.2]
    exact remoteFunction_takes args
  · have hother (hfirst : ∀ info name, args[0]? ≠ some (.identifier info name))
        (hspecial : specialArgument callee args = specialArgument.remoteFunction callee args)
        (huse : ofCall? callee args = none) :
        Takes (Mention.ofCall? callee args) (ofCall? callee args)
          (specialArgument callee args) := by
      rw [ofCall?_eq_none hremote hfirst, hspecial, remoteFunction_eq hremote, huse]
      exact .none
    cases args with
    | nil => exact hother (by simp) rfl rfl
    | cons first rest =>
        cases first with
        | identifier info name => exact specialArgument_first_takes hremote info name rest
        | _ => exact hother (by simp) rfl rfl

theorem resolveGlobal_settled (owner : String) (info : NodeInfo) {name : String}
    (hname : name ≠ placeholder) (hbound : name ∉ bound) (analysis : Analysis) :
    Settled [⟨info, name, .expression bound⟩] []
      ((globalReferent? analysis.environment.declares name).bind (ofResolution? owner)).toList []
      analysis (resolveGlobal owner info name analysis).2 := by
  have hresolution : Mention.resolution? analysis.environment.declares
      ⟨info, name, .expression bound⟩ = globalReferent? analysis.environment.declares name := by
    simp [Mention.resolution?, hname, hbound]
  rw [resolveGlobal, get_bind_run]
  -- The name is looked up in the same tables on both sides, one after the other.
  simp only [globalReferent?, declares, ← isSome_get?] at hresolution ⊢
  revert hresolution
  cases analysis.environment.constants.get? name with
  | some constant =>
      exact fun hresolution => ⟨rfl, .of_resolution hresolution (.of_use (by simp) rfl rfl rfl) rfl
        rfl rfl, .quiet rfl rfl rfl⟩
  | none =>
      cases analysis.environment.dataVars.get? name with
      | some entry =>
          exact fun hresolution =>
            ⟨rfl, .of_resolution hresolution (.of_use (by simp) rfl rfl rfl) rfl
            rfl rfl, .quiet rfl rfl rfl⟩
      | none =>
          cases analysis.environment.functions.get? name with
          | some function =>
              exact fun hresolution =>
                ⟨rfl, .of_resolution hresolution (.of_refer rfl rfl rfl) rfl rfl
                rfl, .quiet rfl rfl rfl⟩
          | none =>
              intro hresolution
              simp only [isSome_none, Bool.false_eq_true, if_false] at hresolution ⊢
              split_ifs at hresolution ⊢
              · exact ⟨rfl, .of_resolution hresolution (.quiet rfl rfl rfl) rfl rfl rfl,
                  .quiet rfl rfl rfl⟩
              · exact ⟨rfl, .of_resolution hresolution (.quiet rfl rfl rfl) rfl rfl rfl,
                  .quiet rfl rfl rfl⟩
              · exact ⟨rfl, .of_undefined hname hresolution, .quiet rfl rfl rfl⟩

theorem resolve_settled (owner : String) (info : NodeInfo) (name : String) {analysis : Analysis}
    (hbound : analysis.scope.names = bound) :
    Settled [⟨info, name, .expression bound⟩] []
      (Mention.use? analysis.environment.declares owner ⟨info, name, .expression bound⟩).toList []
      analysis (resolve owner info name analysis).2 := by
  have huse : Mention.use? analysis.environment.declares owner ⟨info, name, .expression bound⟩ =
      (if name = placeholder then none
      else if name ∈ bound then some ⟨.local, name⟩
      else globalReferent? analysis.environment.declares name).bind (ofResolution? owner) := rfl
  rw [huse]
  by_cases hname : name = placeholder
  · rw [resolve, if_pos hname, if_pos hname]
    exact ⟨rfl, .of_placeholder hname (by simp [Mention.resolution?, hname]), .quiet rfl rfl rfl⟩
  · rw [resolve, if_neg hname, if_neg hname, get_bind_run]
    cases hlookup : analysis.scope.lookup? name with
    | some type =>
        -- What is found in the scope hides all other names.
        have hlocal : name ∈ bound := by
          by_contra hfree
          rw [← hbound] at hfree
          rw [Scope.lookup?_eq_none_iff.mpr hfree] at hlookup
          cases hlookup
        have hresolution : Mention.resolution? analysis.environment.declares
            ⟨info, name, .expression bound⟩ = some ⟨.local, name⟩ := by
          simp [Mention.resolution?, hname, hlocal]
        rw [if_pos hlocal]
        exact ⟨rfl, .of_resolution hresolution (.quiet rfl rfl rfl) rfl rfl rfl, .quiet rfl rfl rfl⟩
    | none =>
        have hfree := Scope.lookup?_eq_none_iff.mp hlookup
        rw [hbound] at hfree
        rw [if_neg hfree]
        exact resolveGlobal_settled owner info hname hfree analysis

/-! ## Steps -/

/-- A step that settles some mentions of a definition where some names are bound, records the calls
and the types of some nodes in it, notes what the definition uses by them, and leaves more names
bound. -/
def Visits (owner : String) (bound opened : List String) (mentions : List Mention)
    (nodes : List Node) (step : Analyzer α) : Prop :=
  ∀ analysis : Analysis, analysis.scope.names = bound →
    Scope.Opens opened analysis.scope (step analysis).2.scope ∧ Noted mentions (callSites nodes)
        (usesOf analysis.environment.declares owner mentions (callSites nodes)) analysis
        (step analysis).2 ∧
      Typed nodes analysis (step analysis).2

namespace Visits

variable {next : α → Analyzer β} {step : Analyzer α}

theorem bind_opening (hstep : Visits owner bound opened mentions nodes step)
    (hnext : ∀ value, Visits owner (opened ++ bound) inner others more (next value)) :
    Visits owner bound (inner ++ opened) (mentions ++ others) (nodes ++ more) (step >>= next) := by
  intro analysis hbound
  obtain ⟨hopened, hnoted, htyped⟩ := hstep analysis hbound
  obtain ⟨hinner, hnoted', htyped'⟩ := hnext (step analysis).1 (step analysis).2
    (by rw [hopened.names, hbound])
  rw [hnoted.met.declares] at hnoted'
  rw [callSites_append]
  exact ⟨hopened.trans hinner, (hnoted.append hnoted').congr fun _ => mem_usesOf_append.symm,
    htyped.append htyped'⟩

theorem bind (hstep : Visits owner bound [] mentions nodes step)
    (hnext : ∀ value, Visits owner bound opened others more (next value)) :
    Visits owner bound opened (mentions ++ others) (nodes ++ more) (step >>= next) := by
  rw [← append_nil opened]
  exact hstep.bind_opening hnext

theorem last (hstep : Visits owner bound [] mentions nodes step)
    (hnext : ∀ value, Visits owner bound opened [] more (next value)) :
    Visits owner bound opened mentions (nodes ++ more) (step >>= next) := by
  rw [← append_nil mentions]
  exact hstep.bind hnext

/-- Nodes without calls are passed over. -/
theorem skip {skipped : List Node} (hcalls : callSites skipped = [])
    (hstep : Visits owner bound opened mentions nodes step) :
    Visits owner bound opened mentions (skipped ++ nodes) step := by
  intro analysis hbound
  obtain ⟨hopened, hnoted, htyped⟩ := hstep analysis hbound
  rw [callSites_append, hcalls, nil_append]
  exact ⟨hopened, hnoted, (Typed.quiet hcalls rfl rfl).append htyped⟩

theorem pure (value : α) : Visits owner bound [] [] [] (pure value) :=
  fun analysis _ => ⟨.refl _, .refl analysis, .quiet rfl rfl rfl⟩

theorem map (hstep : Visits owner bound [] mentions nodes step) (value : α → β) :
    Visits owner bound [] mentions nodes (step >>= fun result => Pure.pure (value result)) := by
  rw [← append_nil nodes]
  exact hstep.last fun _ => .pure _

theorem inScope (opening : List String) {step : Analyzer α} {change : Scope → Scope}
    (hchange : ∀ scope : Scope, (change scope).names = opening ++ scope.names)
    (hstep : Visits owner (opening ++ bound) opened mentions nodes step) :
    Visits owner bound [] mentions nodes (inScope change step) := by
  intro analysis hbound
  have hopening : (analysis.changeScope change).scope.names = opening ++ bound := by
    rw [← hbound]
    exact hchange analysis.scope
  obtain ⟨-, hnoted, htyped⟩ := hstep _ hopening
  exact ⟨.refl _, hnoted.rescope analysis.scope analysis.scope,
    htyped.functions, htyped.others, htyped.calls⟩

end Visits

theorem record_visits (node : Node) (hcall : node.callSite? = none) (type : ValueType) :
    Visits owner bound [] [] [node] (record node.info.id type) := by
  intro analysis _
  rw [callSites_cons hcall]
  exact ⟨.refl _, ⟨⟨rfl, rfl, (append_nil _).symm⟩, rfl, .quiet rfl rfl rfl⟩,
    .of_record hcall rfl rfl⟩

theorem mismatch_visits : Visits owner bound [] [] [] (mismatch message location) :=
  fun _ _ => ⟨.refl _, ⟨⟨rfl, rfl, (append_nil _).symm⟩, rfl, .of_warning rfl rfl rfl rfl⟩,
    .quiet rfl rfl rfl⟩

theorem define_visits (name : String) (type : ValueType) :
    Visits owner bound [name] [] [] (modify (changeScope (·.define name type))) :=
  fun _ _ => ⟨⟨[(name, type)], rfl, rfl⟩,
    ⟨⟨rfl, rfl, (append_nil _).symm⟩, rfl, .quiet rfl rfl rfl⟩, .quiet rfl rfl rfl⟩

theorem Visits.warned {p : Prop} [Decidable p] {next : Unit → Analyzer β}
    (hnext : Visits owner bound [] mentions nodes (next ())) :
    Visits owner bound [] mentions nodes
      (if p then mismatch message location >>= next else next ()) := by
  split
  · exact (mismatch_visits message location).bind fun _ => hnext
  · exact hnext

theorem callType_of_not_builtin (h : isFunction callee = false) (environment : Environment)
    (args : List Expr) (types : List ValueType) :
    callType environment callee args types = environment.returnType callee := by
  have hother (names : List String) (hnames : names.all isFunction = true) :
      callee ∉ names := by
    intro hmem
    have hbuiltin := all_eq_true.mp hnames callee hmem
    rw [h] at hbuiltin
    cases hbuiltin
  have hsingle := hother ["ok", "err", "some", "var-get", "map-get?", "unwrap!", "unwrap-panic",
    "try!", "unwrap-err!", "unwrap-err-panic", "default-to", "to-int", "append", "concat",
    "filter", "as-contract"] (by decide)
  simp only [mem_cons, not_mem_nil, or_false, not_or] at hsingle
  simp [callType, hother arithmetic (by decide), hother comparisons (by decide),
    hsingle, returnType]

theorem typed_call {before after : Analysis} {info : NodeInfo} {types : List ValueType}
    (hfunctions : after.environment.functions = before.environment.functions)
    (htypes : after.facts.types =
      before.facts.types.insert info.id (callType before.environment callee args types)) :
    Typed [.expr (.call info callee args)] before after where
  functions := hfunctions
  others id hid := by
    have hne : id ≠ info.id := fun heq => hid (mem_singleton.mpr heq)
    rw [htypes, get?_insert_of_ne _ _ hne]
  calls _ site hsite hplain := by
    obtain rfl := mem_singleton.mp hsite
    rw [htypes, get?_insert_self]
    exact congrArg some (callType_of_not_builtin hplain _ _ _)

theorem recordCall_settled (owner : String) (info : NodeInfo) (callee : String) (args : List Expr)
    (types : List ValueType) (analysis : Analysis) :
    Settled [] [⟨info, args, .ofCall callee args⟩]
      (if analysis.environment.declares .function callee then [.function callee owner] else [])
      [.expr (.call info callee args)] analysis
      (recordCall owner info callee args types analysis).2 := by
  have herrors := (append_nil analysis.errors).symm
  have hfunction : analysis.environment.declares .function callee =
      analysis.environment.functions.contains callee := rfl
  rw [hfunction, recordCall, get_bind_run]
  by_cases hdeclared : analysis.environment.functions.contains callee = true
  · simp only [if_pos hdeclared]
    exact ⟨rfl, ⟨⟨rfl, rfl, herrors⟩, rfl, .of_refer rfl rfl rfl⟩, typed_call rfl rfl⟩
  · simp only [if_neg hdeclared]
    split <;> exact ⟨rfl, ⟨⟨rfl, rfl, herrors⟩, rfl, .quiet rfl rfl rfl⟩, typed_call rfl rfl⟩

theorem mem_usesOf_call {declares : Referent → String → Bool} {info : NodeInfo} {use : Use}
    {sites : List CallSite} :
    use ∈ usesOf declares owner ((Mention.ofCall? callee args).toList.map snd ++ mentions)
        (sites ++ [⟨info, args, .ofCall callee args⟩]) ↔
      use ∈ (ofCall? callee args).toList ++ (usesOf declares owner mentions sites ++
        if declares .function callee then [.function callee owner] else []) := by
  have htaken : ((Mention.ofCall? callee args).toList.map snd).filterMap
      (Mention.use? declares owner) = [] := by
    rw [filterMap_eq_nil_iff]
    intro mention hmention
    obtain ⟨found, hfound, rfl⟩ := mem_map.mp hmention
    rw [mem_toList] at hfound
    rw [Mention.use?, if_pos (isTaken_of_ofCall? hfound)]
  have hname : (CallInfo.ofCall callee args).name = callee := rfl
  simp only [usesOf, Facts.CallSite.uses, hname, htaken, filterMap_append, nil_append,
    flatMap_append, flatMap_singleton, mem_append]
  grind

theorem Visits.call {info : NodeInfo} (hargs : ∀ special : Option (Nat × ValueType),
      special.map fst = Mention.skipped? callee args →
        Visits owner bound [] mentions (postorderList args) (visitArgs owner special 0 args)) :
    Visits owner bound [] ((Mention.ofCall? callee args).toList.map snd ++ mentions)
      (postorderList args ++ [.expr (.call info callee args)])
      (visit owner (.call info callee args)) := by
  intro analysis hbound
  have htakes := specialArgument_takes callee args
  obtain ⟨hscope, htaken, htakenTyped⟩ := htakes.settled analysis
  obtain ⟨hopens, hvisited, hvisitedTyped⟩ :=
    hargs _ (htakes.position analysis) _ (by rw [hscope, hbound])
  obtain ⟨hscope', hcall, hcallTyped⟩ := recordCall_settled owner info callee args
    (visitArgs owner (specialArgument callee args analysis).1 0 args
      (specialArgument callee args analysis).2).1 _
  rw [hvisited.met.declares, htaken.met.declares] at hcall
  rw [htaken.met.declares] at hvisited
  rw [hscope] at hopens
  refine ⟨?_, ?_, ?_⟩
  · rw [← hscope'] at hopens
    exact hopens
  · have hnoted := (htaken.append hvisited).append hcall
    rw [append_nil, nil_append, append_assoc] at hnoted
    rw [callSites_append]
    exact hnoted.congr fun _ => mem_usesOf_call.symm
  · refine (htakenTyped.preceded (fun node hnode => ?_) hvisitedTyped).append hcallTyped
    obtain ⟨found, hfound, rfl⟩ := mem_map.mp hnode
    have hname := (Mention.ofCall?_eq_some.mp (mem_toList.mp hfound)).2
    rw [postorderList_eq, mem_flatMap]
    exact ⟨_, mem_of_getElem? hname, by rw [postorder]; exact mem_singleton_self _⟩

def NoCallAt (position? : Option Nat) (index : Nat) (args : List Expr) : Prop :=
  ∀ offset arg, position? = some (index + offset) → args[offset]? = some arg →
    callSites arg.postorder = []

theorem noCallAt_skipped? (callee : String) (args : List Expr) :
    NoCallAt (Mention.skipped? callee args) 0 args := by
  intro offset arg hskipped harg
  obtain ⟨found, hfound, hoffset⟩ := map_eq_some_iff.mp hskipped
  have hname := (Mention.ofCall?_eq_some.mp hfound).2
  rw [hoffset, Nat.zero_add, harg] at hname
  cases hname
  rfl

theorem callSites_postorder_pattern (pattern : Pattern) : callSites pattern.postorder = [] := by
  have hsame : (Node.pattern pattern).walk.Perm pattern.postorder :=
    Node.walk_perm_postorder rfl
  have hperm := hsame.filterMap Node.callSite?
  rw [← callSites, callSites_pattern] at hperm
  exact hperm.nil_eq.symm

theorem resolve_visits (owner : String) (info : NodeInfo) (name : String) :
    Visits owner bound [] [⟨info, name, .expression bound⟩] [] (resolve owner info name) := by
  intro analysis hbound
  obtain ⟨hscope, hnoted, htyped⟩ := resolve_settled owner info name hbound
  exact ⟨hscope ▸ .refl _, hnoted.congr fun _ => by simp [usesOf, callSites], htyped⟩

open ContractAudit.Expr

mutual

theorem visit_visits (owner : String) (bound : List String) : (expr : Expr) →
    Visits owner bound [] (expr.mentions bound) expr.postorder (visit owner expr)
  | .literal info value => by exact record_visits _ rfl _
  | .identifier info name => by
      exact (resolve_visits owner info name).last fun _ => record_visits _ rfl _
  | .call info callee args => by
      exact .call fun special hspecial => visitArgs_visits owner bound hspecial 0 args
        (hspecial ▸ noCallAt_skipped? callee args)
  | .letIn info bindings body => by
      -- The bindings leave their names in the scope, where the body finds them.
      have hinner := (visitBindings_visits owner bound bindings).bind_opening fun _ =>
        visitBody_visits owner _ .uint body
      exact (Visits.inScope [] Scope.names_child hinner).last fun _ => record_visits _ rfl _
  | .block info body => by
      exact (visitBody_visits owner bound .uint body).last fun _ => record_visits _ rfl _
  | .conditional info condition yes none => by
      rw [visit, mentions, postorder, append_assoc]
      refine (visit_visits owner bound condition).bind fun _ => .warned _ _ ?_
      exact (visit_visits owner bound yes).last fun _ => record_visits _ rfl _
  | .conditional info condition yes (some no) => by
      rw [visit, mentions, postorder, append_assoc, append_assoc, append_assoc]
      refine (visit_visits owner bound condition).bind fun _ => .warned _ _ ?_
      refine (visit_visits owner bound yes).bind fun _ => ?_
      exact (visit_visits owner bound no).last fun _ => .warned _ _ (record_visits _ rfl _)
  | .matchOn info subject arms => by
      rw [visit, mentions, postorder, append_assoc]
      exact (visit_visits owner bound subject).bind fun type =>
        (visitArms_visits owner bound type 0 arms).last fun _ => record_visits _ rfl _
  | .list info elements => by
      exact (visitElements_visits owner bound none elements).last fun _ => record_visits _ rfl _
  | .tuple info fields => by
      exact (visitFields_visits owner bound fields).last fun _ => record_visits _ rfl _

theorem visitArgs_visits (owner : String) (bound : List String)
    {special : Option (Nat × ValueType)} {skipped : Option Nat}
    (hspecial : special.map fst = skipped) (index : Nat) : (args : List Expr) →
    NoCallAt (special.map fst) index args →
      Visits owner bound [] (mentionsArgs bound skipped index args) (postorderList args)
        (visitArgs owner special index args)
  | [], _ => by exact .pure _
  | arg :: rest, hnone => by
      rw [mentionsArgs, postorderList]
      have hothers : NoCallAt (special.map fst) (index + 1) rest := fun offset arg hoffset =>
        hnone (offset + 1) arg (by rw [hoffset, Nat.add_right_comm, Nat.add_assoc])
      have hrest (type : ValueType) :
          Visits owner bound [] (mentionsArgs bound skipped (index + 1) rest)
            (postorderList rest) (do
            let others ← visitArgs owner special (index + 1) rest
            pure (type :: others)) :=
        (visitArgs_visits owner bound hspecial (index + 1) rest hothers).map _
      cases special with
      | none =>
          subst hspecial
          exact (visit_visits owner bound arg).bind hrest
      | some found =>
          subst hspecial
          rw [visitArgs]
          by_cases hposition : found.1 = index
          · rw [if_pos hposition, if_pos (by simp [hposition])]
            exact .skip (hnone 0 arg (by simp [hposition]) rfl) ((Visits.pure _).bind hrest)
          · rw [if_neg hposition, if_neg (by simp [hposition])]
            exact (visit_visits owner bound arg).bind hrest

theorem visitBindings_visits (owner : String) (bound : List String) :
    (bindings : List (Named Expr)) →
    Visits owner bound (bindings.map Named.name).reverse
      (mentionsBindings bound bindings) (postorderNamed .binding bindings)
      (visitBindings owner bindings)
  | [] => by exact .pure _
  | ⟨info, name, value⟩ :: rest => by
      rw [visitBindings, mentionsBindings, postorderNamed, map_cons, reverse_cons]
      refine (visit_visits owner bound value).bind fun type =>
        (record_visits (.binding ⟨info, name, value⟩) rfl _).bind fun _ => ?_
      exact (define_visits name type).bind_opening fun _ =>
        visitBindings_visits owner (name :: bound) rest

theorem visitBody_visits (owner : String) (bound : List String) (type : ValueType) :
    (body : List Expr) →
    Visits owner bound [] (mentionsList bound body) (postorderList body) (visitBody owner type body)
  | [] => by exact .pure _
  | expr :: rest => by
      exact (visit_visits owner bound expr).bind fun type => visitBody_visits owner bound type rest

theorem visitArms_visits (owner : String) (bound : List String) (subject : ValueType)
    (index : Nat) : (arms : List (Arm Expr)) →
    Visits owner bound [] (mentionsArms bound arms) (postorderArms arms)
      (visitArms owner subject index arms)
  | [] => by exact .pure _
  | ⟨info, pattern, body⟩ :: rest => by
      have hbody : Visits owner bound []
          (mentionsList (pattern.boundNames.reverse ++ bound) body) (postorderList body)
          (inScope (armScope subject pattern index) (visitBody owner .uint body)) :=
        .inScope pattern.boundNames.reverse (names_armScope subject pattern index)
          (visitBody_visits owner (pattern.boundNames.reverse ++ bound) .uint body)
      refine .skip (callSites_postorder_pattern pattern) (hbody.bind fun type => ?_)
      exact .skip (callSites_cons rfl [])
        ((visitArms_visits owner bound subject (index + 1) rest).map _)

theorem visitElements_visits (owner : String) (bound : List String) (first : Option ValueType) :
    (elements : List Expr) →
    Visits owner bound [] (mentionsList bound elements) (postorderList elements)
      (visitElements owner first elements)
  | [] => by exact .pure _
  | expr :: rest => by
      refine (visit_visits owner bound expr).bind fun type => ?_
      cases first with
      | none => exact visitElements_visits owner bound (some type) rest
      | some element => exact .warned _ _ (visitElements_visits owner bound (some element) rest)

theorem visitFields_visits (owner : String) (bound : List String) : (fields : List (Named Expr)) →
    Visits owner bound [] (mentionsFields bound fields) (postorderNamed .field fields)
      (visitFields owner fields)
  | [] => by exact .pure _
  | ⟨info, name, value⟩ :: rest => by
      refine (visit_visits owner bound value).bind fun type =>
        (record_visits (.field ⟨info, name, value⟩) rfl _).bind fun _ => ?_
      exact (visitFields_visits owner bound rest).map _

end

theorem scope_visit (owner : String) (expr : Expr) (analysis : Analysis) :
    (visit owner expr analysis).2.scope = analysis.scope :=
  (visit_visits owner analysis.scope.names expr analysis rfl).1.eq

/-! ## Forms -/

theorem visitOwn_noted (owner : String) (scope : Scope) (body : List Expr) (analysis : Analysis) :
    Noted (mentionsList scope.names body) (callSites (postorderList body))
      (usesOf analysis.environment.declares owner (mentionsList scope.names body)
        (callSites (postorderList body))) analysis (visitOwn owner scope body analysis).2 :=
  (visitBody_visits owner scope.names .uint body (analysis.changeScope fun _ => scope)
    rfl).2.1.rescope analysis.scope _

theorem visitOwn_typed (owner : String) (scope : Scope) (body : List Expr) (analysis : Analysis) :
    Typed (postorderList body) analysis (visitOwn owner scope body analysis).2 := by
  obtain ⟨-, -, htyped⟩ :=
    visitBody_visits owner scope.names .uint body (analysis.changeScope fun _ => scope) rfl
  exact ⟨htyped.functions, htyped.others, htyped.calls⟩

/-- The expressions of a form that are visited, with their owner and the scope they stand in. -/
def visited? : Form → Option (String × Scope × List Expr)
  | .constant _ name value => some (name, .empty, [value])
  | .dataVar _ name _ initial => some (name, .empty, [initial])
  | .fungible _ name (some supply) => some (name, .empty, [supply])
  | .function f => some (f.name, functionScope f, f.body)
  | _ => none

/-- The environment with the type that the visit of a form gives, if the form is the declared
definition of its name. -/
def setType (form : Form) (type : ValueType) (environment : Environment) : Environment :=
  match form with
  | .constant info name _ => setConstantType name info.span type environment
  | .function f => setReturnType f.name f.info.span type environment
  | _ => environment

theorem visitForm_of_none (h : visited? form = none) (analysis : Analysis) :
    (visitForm form analysis).2 = analysis := by
  cases form with
  | fungible info name supply =>
      cases supply with
      | none => rfl
      | some supply => cases h
  | _ => cases h <;> rfl

theorem visitForm_of_some {owner : String} {scope : Scope} {body : List Expr}
    (h : visited? form = some (owner, scope, body)) (analysis : Analysis) :
    (visitForm form analysis).2 = (visitOwn owner scope body analysis).2.changeEnvironment
      (setType form (visitOwn owner scope body analysis).1) := by
  cases form with
  | fungible info name supply =>
      cases supply with
      | none => cases h
      | some supply =>
          cases h
          rfl
  | _ => cases h <;> rfl

theorem untyped_setType (form : Form) (type : ValueType) (environment : Environment) :
    (setType form type environment).untyped = environment.untyped := by
  cases form with
  | constant info name value =>
      dsimp only [setType, setConstantType, untyped]
      rw [mapValues_modify_of_eq _ _ fun entry => by split_ifs <;> rfl]
  | function f =>
      dsimp only [setType, setReturnType, untyped]
      rw [mapValues_modify_of_eq _ _ fun entry => by split_ifs <;> rfl]
  | _ => rfl

end Analyzer

def Form.uses (declares : Referent → String → Bool) (form : Form) : List Use :=
  usesOf declares (form.name?.getD "") form.mentions (callSites (postorderList form.children))

namespace Analyzer

theorem visitForm_noted (form : Form) (analysis : Analysis) :
    Noted form.mentions (callSites (postorderList form.children))
      (form.uses analysis.environment.declares) analysis (visitForm form analysis).2 := by
  have hsingle (name : String) (value : Expr) :
      Noted (value.mentions []) (callSites (postorderList [value]))
        (usesOf analysis.environment.declares name (value.mentions [])
          (callSites (postorderList [value]))) analysis
        (visitOwn name .empty [value] analysis).2 := by
    simpa [mentionsList] using visitOwn_noted name .empty [value] analysis
  cases form with
  | constant info name value =>
      exact (hsingle name value).retype (untyped_setType (.constant info name value) _ _)
  | dataVar info name type initial => exact hsingle name initial
  | fungible info name supply =>
      cases supply with
      | none => exact .refl analysis
      | some supply => exact hsingle name supply
  | function f =>
      have hbody := visitOwn_noted f.name (functionScope f) f.body analysis
      rw [names_functionScope] at hbody
      exact hbody.retype (untyped_setType (.function f) _ _)
  | _ => exact .refl analysis

/-- A visit of some forms settles what they mention and notes what they use. -/
theorem visitForms_noted (forms : List Form) (analysis : Analysis) :
    Noted (forms.flatMap Form.mentions)
      (callSites (forms.flatMap fun form => postorderList form.children))
      (forms.flatMap (Form.uses analysis.environment.declares)) analysis
      (visitForms forms analysis).2 := by
  induction forms generalizing analysis with
  | nil => exact .refl analysis
  | cons form rest ih =>
      have hform := visitForm_noted form analysis
      have hrest := ih (visitForm form analysis).2
      rw [hform.met.declares] at hrest
      rw [flatMap_cons, flatMap_cons, flatMap_cons, callSites_append]
      exact hform.append hrest

end Analyzer

end ContractAudit
