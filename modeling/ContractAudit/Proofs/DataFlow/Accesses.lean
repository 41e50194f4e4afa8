import ContractAudit.DataFlow
import ContractAudit.Proofs.Semantic.NameArguments

/-!
# The storage that a function uses

A function reads or writes storage by a call of a builtin function that takes the name of the
storage as its first argument, and it reads a constant or a data variable by an identifier that
refers to it. The data-flow graph finds the first by the effects that are recorded of calls and the
second by the recorded resolutions, from which it leaves out the names that calls take. Together
they are what stands in the body, at any depth.
-/

namespace ContractAudit

open List CallInfo Mention Contract Form

variable {access : Access} {mention : Mention}

def Access.operations : Access → List String
  | .read => ["var-get", "map-get?"]
  | .write => ["var-set", "map-set", "map-insert", "map-delete"]

/-- That a call at any depth in a function uses the storage of a name. -/
def FunctionDef.Accesses (f : FunctionDef) (access : Access) (name : String) : Prop :=
  ∃ info callee node rest, callee ∈ access.operations ∧
    CallWithin f.body info callee (.identifier node name :: rest)

/-- That an identifier at any depth in a function refers to a constant or a data variable: it stands
as an expression, its name is not bound around it, and the contract defines the name so. -/
def FunctionDef.Refers (f : FunctionDef) (contract : Contract) (name : String) : Prop :=
  (contract.defines .constant name = true ∨ contract.defines .variable name = true) ∧
    ∃ info bound, (function f).Occurs info name bound ∧ name ∉ bound

namespace DataFlow

variable {name callee word : String} {defines : Referent → String → Bool} {kind : Referent}
  {info : NodeInfo}

/-! ## Calls -/

theorem storageEffects_of_mem (h : callee ∈ access.operations) (args : List Expr) :
    ∃ kind, storageEffects (.ofCall callee args) = storageEffect kind access args := by
  have hkeep {kind : EffectKind} (hkind : kind = .mapAccess ∨ kind = .variableAccess) :
      (storageEffect kind access args).filter (fun effect =>
        effect.kind = .mapAccess || effect.kind = .variableAccess) =
          storageEffect kind access args := by
    unfold storageEffect
    split
    · split <;> simp [hkind]
    · rfl
  cases access <;>
    simp only [Access.operations, mem_cons, not_mem_nil, or_false] at h <;>
    rcases h with rfl | rfl | rfl | rfl
  all_goals first
    | exact ⟨.mapAccess, hkeep (.inl rfl)⟩
    | exact ⟨.variableAccess, hkeep (.inr rfl)⟩

theorem storageEffects_of_not_mem (h : ∀ access : Access, callee ∉ access.operations)
    (args : List Expr) : storageEffects (.ofCall callee args) = [] := by
  have hread := h .read
  have hwrite := h .write
  simp only [Access.operations, mem_cons, not_mem_nil, or_false, not_or] at hread hwrite
  simp only [storageEffects, ofCall, effectsOf, Builtin.mapWrites, hread, hwrite,
    contains_cons, beq_iff_eq, contains_nil, Bool.or_false, Bool.or_eq_true, or_self,
    if_false]
  split_ifs <;> rfl

theorem of_mem_storageEffects {args : List Expr} {effect : SideEffect}
    (h : effect ∈ storageEffects (.ofCall callee args)) :
    callee ∈ effect.access.operations ∧ ∃ node name rest,
      args = .identifier node name :: rest ∧ name ≠ "" ∧ effect.target = some name := by
  by_cases hcallee : ∃ access : Access, callee ∈ access.operations
  · obtain ⟨access, haccess⟩ := hcallee
    obtain ⟨kind, hkind⟩ := storageEffects_of_mem haccess args
    rw [hkind, storageEffect] at h
    split at h
    · next name hname =>
        unfold storageName? at hname
        split at hname <;> cases hname
        split at h
        · cases h
        · next hempty =>
            rw [mem_singleton] at h
            subst h
            exact ⟨haccess, _, name, _, rfl, by simpa using hempty, rfl⟩
    · cases h
  · rw [storageEffects_of_not_mem (not_exists.mp hcallee)] at h
    cases h

theorem exists_mem_storageEffects (h : callee ∈ access.operations) (hname : name ≠ "")
    (node : NodeInfo) (rest : List Expr) :
    ∃ kind, ⟨kind, access, some name⟩ ∈
      storageEffects (.ofCall callee (.identifier node name :: rest)) := by
  obtain ⟨kind, hkind⟩ := storageEffects_of_mem h (.identifier node name :: rest)
  exact ⟨kind, by simp [hkind, storageEffect, storageName?, hname]⟩

variable {contract : Contract} {f : FunctionDef}

section

variable (hnumbers : (contract.postorder.map (·.info.id)).Nodup) (hf : .function f ∈ contract.body)

include hnumbers hf

theorem mem_callAccesses_iff (hname : name ≠ "") :
    (name, access) ∈ callAccesses (analyzeContract contract).facts f ↔ f.Accesses access name := by
  rw [callAccesses, callsIn_analyzeContract hnumbers hf, mem_flatMap]
  constructor
  · rintro ⟨site, hsite, haccess⟩
    obtain ⟨effect, heffect, htarget⟩ := mem_filterMap.mp haccess
    obtain ⟨expr, hexpr, info, callee, args, hwithin, rfl⟩ := Expr.mem_callsList.mp hsite
    obtain ⟨hcallee, node, found, rest, rfl, _, hfound⟩ := of_mem_storageEffects heffect
    obtain ⟨rfl, rfl⟩ : found = name ∧ effect.access = access := by simpa [hfound] using htarget
    exact ⟨info, callee, node, rest, hcallee, expr, hexpr, hwithin⟩
  · rintro ⟨info, callee, node, rest, hcallee, hcall⟩
    obtain ⟨kind, heffect⟩ := exists_mem_storageEffects hcallee hname node rest
    exact ⟨_, mem_callsList_iff.mpr hcall, mem_filterMap.mpr ⟨_, heffect, rfl⟩⟩

theorem mem_targetIds_iff {id : Nat} : id ∈ targetIds (analyzeContract contract).facts f ↔
      ∃ (access : Access) (info : NodeInfo) (callee : String) (node : NodeInfo) (name : String)
        (rest : List Expr), callee ∈ access.operations ∧ name ≠ "" ∧
        CallWithin f.body info callee (.identifier node name :: rest) ∧ node.id = id := by
  rw [targetIds, callsIn_analyzeContract hnumbers hf, mem_flatMap]
  constructor
  · rintro ⟨site, hsite, hid⟩
    obtain ⟨expr, hexpr, info, callee, args, hwithin, rfl⟩ := Expr.mem_callsList.mp hsite
    split at hid
    · cases hid
    · next hsome =>
        obtain ⟨effect, heffect⟩ := exists_mem_of_ne_nil _ (by simpa using hsome)
        obtain ⟨hcallee, node, name, rest, rfl, hname, _⟩ := of_mem_storageEffects heffect
        exact ⟨_, info, callee, node, name, rest, hcallee, hname, ⟨expr, hexpr, hwithin⟩,
          by simpa [Expr.info, eq_comm] using hid⟩
  · rintro ⟨access, info, callee, node, name, rest, hcallee, hname, hcall, rfl⟩
    obtain ⟨kind, heffect⟩ := exists_mem_storageEffects hcallee hname node rest
    refine ⟨_, mem_callsList_iff.mpr hcall, ?_⟩
    rw [if_neg (by simpa using ne_nil_of_mem heffect)]
    simp [Expr.info]

end

/-! ## Identifiers -/

theorem ofCall?_of_mem (h : callee ∈ access.operations) (node : NodeInfo) (name : String)
    (rest : List Expr) :
    ∃ kind, ofCall? callee (.identifier node name :: rest) =
      some (0, ⟨node, name, .storage kind⟩) := by
  have hargument : ∃ kind, nameArgument? callee = some (0, .storage kind) := by
    cases access <;>
      simp only [Access.operations, mem_cons, not_mem_nil, or_false] at h <;>
      rcases h with rfl | rfl | rfl | rfl <;> exact ⟨_, rfl⟩
  obtain ⟨kind, hkind⟩ := hargument
  exact ⟨kind, by simp [ofCall?, hkind]⟩

theorem nameArgument?_plain {position : Nat} {role : Role}
    (h : nameArgument? callee = some (position, role))
    (hrole : role = .storage kind ∨ role = .word kind)
    (hkind : kind = .constant ∨ kind = .variable) :
    position = 0 ∧ ∃ access : Access, callee ∈ access.operations := by
  rcases hkind with rfl | rfl <;> rcases hrole with rfl | rfl <;> unfold nameArgument? at h <;>
    split_ifs at h with _ hvariable <;> cases h
  refine ⟨rfl, ?_⟩
  simp only [Builtin.variableOperations, mem_cons, not_mem_nil, or_false] at hvariable
  rcases hvariable with rfl | rfl
  · exact ⟨.read, by decide⟩
  · exact ⟨.write, by decide⟩

theorem plainRead?_eq_some {facts : Facts} {targets : List Nat} {node : Node} :
    plainRead? facts targets node = some name ↔ ∃ info word kind,
      node = .expr (.identifier info word) ∧ info.id ∉ targets ∧
        (kind = .constant ∨ kind = .variable) ∧
          facts.resolutions.get? info.id = some ⟨kind, name⟩ := by
  constructor
  · intro h
    unfold plainRead? at h
    split at h
    · next info word =>
        split at h
        · cases h
        · next hfree =>
            have hfree : info.id ∉ targets := by simpa using hfree
            split at h <;> cases h
            · next hget => exact ⟨info, word, _, rfl, hfree, .inl rfl, hget⟩
            · next hget => exact ⟨info, word, _, rfl, hfree, .inr rfl, hget⟩
    · cases h
  · rintro ⟨info, word, kind, rfl, hfree, hkind | hkind, hget⟩ <;>
      simp [plainRead?, hfree, hget, hkind]

theorem mem_walkBody_iff (bound : List String) {body : List Expr} :
    .expr (.identifier info word) ∈ walkBody body ↔
      ∃ role, ⟨info, word, role⟩ ∈ Expr.mentionsList bound body := by
  have hnode : .expr (.identifier info word) ∈ walkBody body ↔
      (info, word) ∈ (Expr.postorderList body).filterMap Node.identifier? := by
    rw [(Expr.walkBody_perm_postorderList body).mem_iff, mem_filterMap]
    constructor
    · intro h
      exact ⟨_, h, rfl⟩
    · rintro ⟨node, hmem, hidentifier⟩
      unfold Node.identifier? at hidentifier
      split at hidentifier <;> cases hidentifier
      exact hmem
  rw [hnode, ← (Expr.mentionsList_perm bound body).mem_iff, mem_map]
  constructor
  · rintro ⟨⟨_, _, role⟩, hmention, ⟨⟩⟩
    exact ⟨role, hmention⟩
  · rintro ⟨role, hmention⟩
    exact ⟨_, hmention, rfl⟩

theorem role_of_resolution? (h : mention.isTaken = true)
    (hresolution : mention.resolution? defines = some ⟨kind, name⟩) :
    mention.name = name ∧ (mention.role = .storage kind ∨ mention.role = .word kind) := by
  obtain ⟨info, word, role⟩ := mention
  cases role with
  | expression bound => cases h
  | storage found =>
      simp only [resolution?, Option.ite_none_left_eq_some, Option.ite_none_right_eq_some,
        Option.some.injEq, Resolution.mk.injEq] at hresolution
      exact ⟨hresolution.2.2.2, .inl (by rw [hresolution.2.2.1])⟩
  | word found =>
      simp only [resolution?, Option.some.injEq, Resolution.mk.injEq] at hresolution
      exact ⟨hresolution.2, .inr (by rw [hresolution.1])⟩

theorem mem_mentions_of_mem (hf : .function f ∈ contract.body)
    (h : mention ∈ (function f).mentions) : mention ∈ contract.mentions :=
  mem_flatMap.mpr ⟨_, hf, h⟩

section

variable (hnumbers : (contract.postorder.map (·.info.id)).Nodup) (hf : .function f ∈ contract.body)
  (hmention : mention ∈ (function f).mentions)

include hnumbers hf hmention

theorem id_mem_targetIds (htaken : mention.isTaken = true)
    (hkind : kind = .constant ∨ kind = .variable) (hname : name ≠ "")
    (hresolution : mention.resolution? contract.declared = some ⟨kind, name⟩) :
    mention.info.id ∈ targetIds (analyzeContract contract).facts f := by
  obtain ⟨info, callee, args, position, hcall, htakes⟩ :=
    (Expr.mem_mentionsList_iff_taken htaken).mp hmention
  obtain ⟨hargument, harg⟩ := ofCall?_eq_some.mp htakes
  obtain ⟨rfl, hrole⟩ := role_of_resolution? htaken hresolution
  obtain ⟨rfl, access, hcallee⟩ := nameArgument?_plain hargument hrole hkind
  cases args with
  | nil => cases harg
  | cons first rest =>
      cases harg
      exact (mem_targetIds_iff hnumbers hf).mpr
        ⟨access, info, callee, mention.info, mention.name, rest, hcallee, hname, hcall, rfl⟩

theorem isTaken_of_mem_targetIds
    (h : mention.info.id ∈ targetIds (analyzeContract contract).facts f) :
    mention.isTaken = true := by
  obtain ⟨access, info, callee, node, name, rest, hcallee, _, hcall, hid⟩ :=
    (mem_targetIds_iff hnumbers hf).mp h
  obtain ⟨kind, htakes⟩ := ofCall?_of_mem hcallee node name rest
  have htarget : ⟨node, name, .storage kind⟩ ∈ (function f).mentions :=
    (Expr.mem_mentionsList_iff_taken rfl).mpr ⟨info, callee, _, 0, hcall, htakes⟩
  -- No two identifiers of the contract have the same number.
  have heq := inj_on_of_nodup_map (nodup_id_mentions hnumbers)
    (mem_mentions_of_mem hf htarget) (mem_mentions_of_mem hf hmention) hid
  rw [← heq]
  rfl

end

theorem globalReferent?_plain_iff : (∃ kind, (kind = .constant ∨ kind = .variable) ∧
      globalReferent? defines word = some ⟨kind, name⟩) ↔
      word = name ∧ (defines .constant name = true ∨ defines .variable name = true) := by
  unfold globalReferent?
  split_ifs <;> grind

theorem resolution?_expression_iff {bound : List String} :
    (∃ kind, (kind = .constant ∨ kind = .variable) ∧
      resolution? contract.declared ⟨info, word, .expression bound⟩ = some ⟨kind, name⟩) ↔
      word = name ∧ name ≠ Parse.placeholder ∧ name ∉ bound ∧
        (contract.defines .constant name = true ∨ contract.defines .variable name = true) := by
  simp only [resolution?]
  by_cases hword : word = Parse.placeholder
  · grind
  rw [if_neg hword, globalReferent?_declared hword]
  by_cases hbound : word ∈ bound
  · grind
  · rw [if_neg hbound, globalReferent?_plain_iff]
    grind

theorem mem_identifierReads_iff (hnumbers : (contract.postorder.map (·.info.id)).Nodup)
    (hf : .function f ∈ contract.body) (hname : name ≠ "")
    (hplaceholder : name ≠ Parse.placeholder) :
    name ∈ identifierReads (analyzeContract contract).facts f ↔ f.Refers contract name := by
  have hmem : name ∈ identifierReads (analyzeContract contract).facts f ↔
      ∃ mention ∈ (function f).mentions, mention.isTaken = false ∧
        ∃ kind, (kind = .constant ∨ kind = .variable) ∧
          mention.resolution? contract.declared = some ⟨kind, name⟩ := by
    rw [identifierReads, mem_filterMap]
    constructor
    · rintro ⟨node, hnode, hread⟩
      obtain ⟨info, word, kind, rfl, hfree, hkind, hget⟩ := plainRead?_eq_some.mp hread
      obtain ⟨role, hmention⟩ :=
        (mem_walkBody_iff (f.params.map Parameter.name).reverse).mp hnode
      have hresolution := get?_resolutions_of_mem hnumbers (mem_mentions_of_mem hf hmention)
      rw [hget] at hresolution
      refine ⟨_, hmention, Bool.eq_false_iff.mpr fun htaken => hfree ?_, kind, hkind,
        hresolution.symm⟩
      exact id_mem_targetIds hnumbers hf hmention htaken hkind hname hresolution.symm
    · rintro ⟨⟨info, word, role⟩, hmention, htaken, kind, hkind, hresolution⟩
      refine ⟨_, (mem_walkBody_iff _).mpr ⟨role, hmention⟩, plainRead?_eq_some.mpr
        ⟨info, word, kind, rfl, fun htarget => ?_, hkind, ?_⟩⟩
      · rw [isTaken_of_mem_targetIds hnumbers hf hmention htarget] at htaken
        cases htaken
      · rw [← hresolution]
        exact get?_resolutions_of_mem hnumbers (mem_mentions_of_mem hf hmention)
  rw [hmem]
  constructor
  · rintro ⟨⟨info, word, role⟩, hmention, htaken, hresolves⟩
    cases role with
    | expression all =>
        obtain ⟨rfl, _, hfree, hdefines⟩ := resolution?_expression_iff.mp hresolves
        obtain ⟨bound, hoccurs, hall⟩ := occurs_of_mem_mentions hmention
        exact ⟨hdefines, info, bound, hoccurs, fun hbound => hfree ((hall _).mpr hbound)⟩
    | storage kind => cases htaken
    | word kind => cases htaken
  · rintro ⟨hdefines, info, bound, hoccurs, hfree⟩
    obtain ⟨all, hmention, hall⟩ := hoccurs.exists_mention
    exact ⟨_, hmention, rfl, resolution?_expression_iff.mpr
      ⟨rfl, hplaceholder, fun hbound => hfree ((hall _).mp hbound), hdefines⟩⟩

end DataFlow

end ContractAudit
