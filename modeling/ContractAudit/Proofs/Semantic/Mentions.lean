import ContractAudit.Proofs.Semantic.Scoping
import ContractAudit.Proofs.Syntax.Postorder
import Mathlib.Data.List.Perm.Subperm

/-!
# Identifiers in the order of a visit

`Expr.mentions` lists the identifiers of an expression in the order in which a visit meets them,
those that a builtin function takes as a name included. The mentions of expressions are exactly the
occurrences, with the same names bound around them, and the list has every identifier of the
expression once.
-/

namespace ContractAudit

open List ContractAudit.Expr

variable {arg : Expr} {arms : List (Arm Expr)} {args : List Expr} {index position start : Nat}
  {skipped : Option Nat} {callee : String} {contract : Contract} {form : Form}

/-- An identifier that a visit meets. -/
structure Mention where
  info : NodeInfo
  name : String
  role : Role
deriving DecidableEq, Repr

namespace Mention

def identifier (mention : Mention) : NodeInfo × String :=
  (mention.info, mention.name)

def ofCall? (callee : String) (args : List Expr) : Option (Nat × Mention) :=
  match nameArgument? callee with
  | some (position, role) =>
      match args[position]? with
      | some (.identifier info name) => some (position, ⟨info, name, role⟩)
      | _ => none
  | none => none

def skipped? (callee : String) (args : List Expr) : Option Nat :=
  (ofCall? callee args).map Prod.fst

theorem ofCall?_eq_some {mention : Mention} : ofCall? callee args = some (position, mention) ↔
      nameArgument? callee = some (position, mention.role) ∧
        args[position]? = some (.identifier mention.info mention.name) := by
  obtain ⟨info, name, role⟩ := mention
  unfold ofCall?
  constructor
  · intro h
    split at h
    · next hrole =>
        split at h <;> cases h
        next harg => exact ⟨hrole, harg⟩
    · cases h
  · rintro ⟨hrole, harg⟩
    simp only [hrole, harg]

end Mention

namespace Expr

mutual

/-- The identifiers of an expression in the order of a visit, where some names are bound around the
expression. -/
def mentions (bound : List String) : Expr → List Mention
  | .literal _ _ => []
  | .identifier info name => [⟨info, name, .expression bound⟩]
  | .call _ callee args =>
      (Mention.ofCall? callee args).toList.map Prod.snd ++
        mentionsArgs bound (Mention.skipped? callee args) 0 args
  | .letIn _ bindings body =>
      mentionsBindings bound bindings ++
        mentionsList ((bindings.map Named.name).reverse ++ bound) body
  | .block _ body => mentionsList bound body
  | .conditional _ condition yes none => condition.mentions bound ++ yes.mentions bound
  | .conditional _ condition yes (some no) =>
      condition.mentions bound ++ yes.mentions bound ++ no.mentions bound
  | .matchOn _ subject arms => subject.mentions bound ++ mentionsArms bound arms
  | .list _ elements => mentionsList bound elements
  | .tuple _ fields => mentionsFields bound fields

/-- The identifiers of the arguments of a call, from a position on, but for a skipped one. -/
def mentionsArgs (bound : List String) (skipped : Option Nat) (index : Nat) :
    List Expr → List Mention
  | [] => []
  | arg :: rest =>
      (if skipped = some index then [] else arg.mentions bound) ++
        mentionsArgs bound skipped (index + 1) rest

def mentionsList (bound : List String) : List Expr → List Mention
  | [] => []
  | expr :: rest => expr.mentions bound ++ mentionsList bound rest

/-- The identifiers of the bindings of a `let`, each of which is bound in the later ones. -/
def mentionsBindings (bound : List String) : List (Named Expr) → List Mention
  | [] => []
  | ⟨_, name, value⟩ :: rest => value.mentions bound ++ mentionsBindings (name :: bound) rest

def mentionsArms (bound : List String) : List (Arm Expr) → List Mention
  | [] => []
  | ⟨_, pattern, body⟩ :: rest =>
      mentionsList (pattern.boundNames.reverse ++ bound) body ++ mentionsArms bound rest

def mentionsFields (bound : List String) : List (Named Expr) → List Mention
  | [] => []
  | ⟨_, _, value⟩ :: rest => value.mentions bound ++ mentionsFields bound rest

end

end Expr

def Form.mentions : Form → List Mention
  | .function definition =>
      mentionsList (definition.params.map Parameter.name).reverse definition.body
  | .constant _ _ value => value.mentions []
  | .dataVar _ _ _ initial => initial.mentions []
  | .fungible _ _ (some supply) => supply.mentions []
  | _ => []

def Contract.mentions (contract : Contract) : List Mention :=
  contract.body.flatMap Form.mentions

namespace Expr

variable {bound inner : List String} {mention : Mention} {expr : Expr}

/-! ## Where a mention stands -/

theorem mem_mentionsList {exprs : List Expr} :
    mention ∈ mentionsList bound exprs ↔ ∃ expr ∈ exprs, mention ∈ expr.mentions bound := by
  induction exprs with
  | nil => simp [mentionsList]
  | cons expr rest ih => simp [mentionsList, ih]

theorem mem_mentionsArgs :
    mention ∈ mentionsArgs bound skipped start args ↔ ∃ index arg, args[index]? = some arg ∧
      skipped ≠ some (start + index) ∧ mention ∈ arg.mentions bound := by
  induction args generalizing start with
  | nil => simp [mentionsArgs]
  | cons arg rest ih =>
      rw [mentionsArgs, mem_append, ih]
      refine .trans (or_congr ?_ (exists_congr fun index => ?_)) Nat.or_exists_add_one
      · by_cases hskipped : skipped = some start <;> simp [hskipped]
      · rw [getElem?_cons_succ, Nat.add_right_comm, Nat.add_assoc]

theorem mem_mentionsBindings {bindings : List (Named Expr)} :
    mention ∈ mentionsBindings bound bindings ↔ ∃ earlier binding later,
      bindings = earlier ++ binding :: later ∧
        mention ∈ binding.value.mentions ((earlier.map Named.name).reverse ++ bound) := by
  induction bindings generalizing bound with
  | nil => simp [mentionsBindings]
  | cons first rest ih =>
      rw [mentionsBindings, mem_append, ih]
      constructor
      · rintro (h | ⟨earlier, binding, later, rfl, h⟩)
        · exact ⟨[], first, rest, rfl, h⟩
        · exact ⟨first :: earlier, binding, later, rfl, by simpa using h⟩
      · rintro ⟨_ | ⟨_, earlier⟩, binding, later, heq, h⟩ <;> cases heq
        · exact .inl h
        · exact .inr ⟨earlier, binding, later, rfl, by simpa using h⟩

theorem mem_mentionsArms :
    mention ∈ mentionsArms bound arms ↔ ∃ arm ∈ arms, ∃ expr ∈ arm.body,
      mention ∈ expr.mentions (arm.pattern.boundNames.reverse ++ bound) := by
  induction arms with
  | nil => simp [mentionsArms]
  | cons arm rest ih => simp [mentionsArms, mem_mentionsList, ih]

theorem mem_mentionsFields {fields : List (Named Expr)} : mention ∈ mentionsFields bound fields ↔
      ∃ entry ∈ fields, mention ∈ entry.value.mentions bound := by
  induction fields with
  | nil => simp [mentionsFields]
  | cons entry rest ih => simp [mentionsFields, ih]

theorem mem_mentions_conditional {node : NodeInfo} {condition yes : Expr} {no : Option Expr} :
    mention ∈ mentions bound (.conditional node condition yes no) ↔
      mention ∈ condition.mentions bound ∨ mention ∈ yes.mentions bound ∨
        ∃ other, no = some other ∧ mention ∈ other.mentions bound := by
  cases no <;> simp [mentions]

/-! ## Every occurrence is mentioned -/

theorem skipped?_ne (harg : args[index]? = some arg) (h : arg.isNameArgument callee index = false) :
    Mention.skipped? callee args ≠ some index := by
  intro hskipped
  obtain ⟨⟨position, name⟩, hcall, rfl⟩ := Option.map_eq_some_iff.mp hskipped
  obtain ⟨hrole, hword⟩ := Mention.ofCall?_eq_some.mp hcall
  rw [hword] at harg
  cases harg
  simp [isNameArgument, hrole] at h

theorem mem_around {all names : List String}
    (h : ∀ other, other ∈ all ↔ other ∈ inner ∨ other ∈ names.reverse ++ bound) (other : String) :
    other ∈ all ↔ other ∈ inner ++ names ∨ other ∈ bound := by
  rw [h other, mem_append, mem_append, mem_reverse, or_assoc]

theorem Occurs.exists_mention {info : NodeInfo} {name : String} (h : expr.Occurs info name inner)
    (bound : List String) :
    ∃ all, ⟨info, name, .expression all⟩ ∈ expr.mentions bound ∧
      ∀ other, other ∈ all ↔ other ∈ inner ∨ other ∈ bound := by
  induction h generalizing bound with
  | here => exact ⟨bound, mem_singleton.mpr rfl, by simp⟩
  | argument _ _ callee args index arg harg hname _ ih =>
      obtain ⟨all, hmention, hall⟩ := ih bound
      refine ⟨all, ?_, hall⟩
      have hskipped : Mention.skipped? callee args ≠ some (0 + index) := by
        rw [Nat.zero_add]
        exact skipped?_ne harg hname
      rw [mentions, mem_append]
      exact .inr (mem_mentionsArgs.mpr ⟨index, arg, harg, hskipped, hmention⟩)
  | bindingValue _ _ earlier binding later body _ ih =>
      -- A value sees the names of the bindings before its own, and not its own.
      obtain ⟨all, hmention, hall⟩ := ih ((earlier.map Named.name).reverse ++ bound)
      refine ⟨all, ?_, mem_around hall⟩
      rw [mentions, mem_append]
      exact .inl (mem_mentionsBindings.mpr ⟨earlier, binding, later, rfl, hmention⟩)
  | letBody _ _ bindings body expr hexpr _ ih =>
      obtain ⟨all, hmention, hall⟩ := ih ((bindings.map Named.name).reverse ++ bound)
      refine ⟨all, ?_, mem_around hall⟩
      rw [mentions, mem_append]
      exact .inr (mem_mentionsList.mpr ⟨expr, hexpr, hmention⟩)
  | block _ _ body expr hexpr _ ih | element _ _ body expr hexpr _ ih =>
      obtain ⟨all, hmention, hall⟩ := ih bound
      exact ⟨all, by rw [mentions]; exact mem_mentionsList.mpr ⟨expr, hexpr, hmention⟩, hall⟩
  | condition _ _ _ _ _ _ ih | thenBranch _ _ _ _ _ _ ih | elseBranch _ _ _ _ _ _ ih =>
      obtain ⟨all, hmention, hall⟩ := ih bound
      exact ⟨all, by simp [mem_mentions_conditional, hmention], hall⟩
  | subject _ _ _ _ _ ih =>
      obtain ⟨all, hmention, hall⟩ := ih bound
      exact ⟨all, by simp [mentions, hmention], hall⟩
  | armBody _ _ subject arms arm expr harm hexpr _ ih =>
      obtain ⟨all, hmention, hall⟩ := ih (arm.pattern.boundNames.reverse ++ bound)
      refine ⟨all, ?_, mem_around hall⟩
      rw [mentions, mem_append]
      exact .inr (mem_mentionsArms.mpr ⟨arm, harm, expr, hexpr, hmention⟩)
  | fieldValue _ _ fields entry hentry _ ih =>
      obtain ⟨all, hmention, hall⟩ := ih bound
      exact ⟨all, by rw [mentions]; exact mem_mentionsFields.mpr ⟨entry, hentry, hmention⟩, hall⟩

/-! ## Every expression mentioned is an occurrence -/

theorem isNameArgument_of_skipped?_ne (harg : args[index]? = some arg)
    (h : Mention.skipped? callee args ≠ some index) : arg.isNameArgument callee index = false := by
  cases arg with
  | identifier info name =>
      by_contra hname
      have hrole : (nameArgument? callee).any (·.1 = index) = true :=
        Bool.not_eq_false _ ▸ hname
      cases hargument : nameArgument? callee with
      | none => simp [hargument] at hrole
      | some found =>
          obtain ⟨position, role⟩ := found
          simp only [hargument, Option.any_some, decide_eq_true_eq] at hrole
          subst hrole
          exact h (by simp [Mention.skipped?, Mention.ofCall?, hargument, harg])
  | _ => rfl

theorem ofCall?_role {mention : Mention}
    (h : Mention.ofCall? callee args = some (position, mention)) (bound : List String) :
    mention.role ≠ .expression bound := by
  intro hexpression
  have hrole := (Mention.ofCall?_eq_some.mp h).1
  rw [hexpression, nameArgument?] at hrole
  split_ifs at hrole <;> cases hrole

variable {info : NodeInfo} {name : String} {all : List String}

theorem sizeOf_value_lt {entry : Named Expr} {entries : List (Named Expr)} (h : entry ∈ entries) :
    sizeOf entry.value < sizeOf entries := by
  have hless := sizeOf_lt_of_mem h
  obtain ⟨_, _, value⟩ := entry
  simp only [Named.mk.sizeOf_spec] at hless ⊢
  omega

theorem sizeOf_body_lt {arm : Arm Expr} (h : arm ∈ arms) : sizeOf arm.body < sizeOf arms := by
  have hless := sizeOf_lt_of_mem h
  obtain ⟨_, _, body⟩ := arm
  simp only [Arm.mk.sizeOf_spec] at hless ⊢
  omega

/-- An identifier that is mentioned as an expression occurs with the names that are bound around
it. -/
theorem occurs_of_mem_mentions {bound : List String} (expr : Expr)
    (h : ⟨info, name, .expression all⟩ ∈ expr.mentions bound) :
    ∃ inner, expr.Occurs info name inner ∧
      ∀ other, other ∈ all ↔ other ∈ inner ∨ other ∈ bound := by
  match expr with
  | .literal _ _ => simp [mentions] at h
  | .identifier _ _ =>
      rw [mentions, mem_singleton] at h
      cases h
      exact ⟨[], .here, by simp⟩
  | .call node callee args =>
      rw [mentions, mem_append] at h
      rcases h with h | h
      · -- What a builtin function takes as a name is not mentioned as an expression.
        obtain ⟨⟨position, mention⟩, hmention, rfl⟩ := mem_map.mp h
        exact absurd rfl (ofCall?_role (Option.mem_toList.mp hmention) all)
      · obtain ⟨index, arg, harg, hskipped, h⟩ := mem_mentionsArgs.mp h
        rw [Nat.zero_add] at hskipped
        have hname := isNameArgument_of_skipped?_ne harg hskipped
        have hless := sizeOf_lt_of_mem (mem_of_getElem? harg)
        obtain ⟨inner, hinner, hall⟩ := occurs_of_mem_mentions arg h
        exact ⟨inner, .argument _ node callee args index arg harg hname hinner, hall⟩
  | .letIn node bindings body =>
      rw [mentions, mem_append] at h
      rcases h with h | h
      · obtain ⟨earlier, binding, later, heq, h⟩ := mem_mentionsBindings.mp h
        have hless := sizeOf_value_lt (show binding ∈ bindings by simp [heq])
        obtain ⟨inner, hinner, hall⟩ := occurs_of_mem_mentions binding.value h
        subst heq
        exact ⟨_, .bindingValue inner node earlier binding later body hinner, mem_around hall⟩
      · obtain ⟨expr, hexpr, h⟩ := mem_mentionsList.mp h
        have hless := sizeOf_lt_of_mem hexpr
        obtain ⟨inner, hinner, hall⟩ := occurs_of_mem_mentions expr h
        exact ⟨_, .letBody inner node bindings body expr hexpr hinner, mem_around hall⟩
  | .block node body =>
      rw [mentions, mem_mentionsList] at h
      obtain ⟨expr, hexpr, h⟩ := h
      have hless := sizeOf_lt_of_mem hexpr
      obtain ⟨inner, hinner, hall⟩ := occurs_of_mem_mentions expr h
      exact ⟨inner, .block inner node body expr hexpr hinner, hall⟩
  | .conditional node condition yes no =>
      rcases mem_mentions_conditional.mp h with h | h | ⟨no, rfl, hno⟩
      · obtain ⟨inner, hinner, hall⟩ := occurs_of_mem_mentions condition h
        exact ⟨inner, .condition inner node condition yes _ hinner, hall⟩
      · obtain ⟨inner, hinner, hall⟩ := occurs_of_mem_mentions yes h
        exact ⟨inner, .thenBranch inner node condition yes _ hinner, hall⟩
      · obtain ⟨inner, hinner, hall⟩ := occurs_of_mem_mentions no hno
        exact ⟨inner, .elseBranch inner node condition yes no hinner, hall⟩
  | .matchOn node subject arms =>
      rw [mentions, mem_append] at h
      rcases h with h | h
      · obtain ⟨inner, hinner, hall⟩ := occurs_of_mem_mentions subject h
        exact ⟨inner, .subject inner node subject arms hinner, hall⟩
      · obtain ⟨arm, harm, expr, hexpr, h⟩ := mem_mentionsArms.mp h
        have hless : sizeOf expr < sizeOf arms :=
          Nat.lt_trans (sizeOf_lt_of_mem hexpr) (sizeOf_body_lt harm)
        obtain ⟨inner, hoccurs, hall⟩ := occurs_of_mem_mentions expr h
        exact ⟨_, .armBody inner node subject arms arm expr harm hexpr hoccurs, mem_around hall⟩
  | .list node elements =>
      rw [mentions, mem_mentionsList] at h
      obtain ⟨expr, hexpr, h⟩ := h
      have hless := sizeOf_lt_of_mem hexpr
      obtain ⟨inner, hinner, hall⟩ := occurs_of_mem_mentions expr h
      exact ⟨inner, .element inner node elements expr hexpr hinner, hall⟩
  | .tuple node fields =>
      rw [mentions, mem_mentionsFields] at h
      obtain ⟨entry, hentry, h⟩ := h
      have hless := sizeOf_value_lt hentry
      obtain ⟨inner, hinner, hall⟩ := occurs_of_mem_mentions entry.value h
      exact ⟨inner, .fieldValue inner node fields entry hentry hinner, hall⟩
termination_by expr
decreasing_by all_goals subst_vars; simp_wf; omega

end Expr

theorem Form.Occurs.exists_mention {info : NodeInfo} {name : String} {bound : List String}
    (h : form.Occurs info name bound) :
    ∃ all, ⟨info, name, .expression all⟩ ∈ form.mentions ∧ ∀ other, other ∈ all ↔
      other ∈ bound := by
  cases h with
  | functionBody inner definition expr hexpr hinner =>
      obtain ⟨all, hmention, hall⟩ :=
        hinner.exists_mention (definition.params.map Parameter.name).reverse
      refine ⟨all, mem_mentionsList.mpr ⟨expr, hexpr, hmention⟩, fun other => ?_⟩
      rw [hall other, mem_append, mem_reverse]
  | constantValue _ _ _ _ hinner | initialValue _ _ _ _ _ hinner | supply _ _ _ _ hinner =>
      obtain ⟨all, hmention, hall⟩ := hinner.exists_mention []
      exact ⟨all, hmention, fun other => by simp [hall other]⟩

theorem Form.occurs_of_mem_mentions {info : NodeInfo} {name : String} {all : List String}
    (h : ⟨info, name, .expression all⟩ ∈ form.mentions) :
    ∃ bound, form.Occurs info name bound ∧ ∀ other, other ∈ all ↔ other ∈ bound := by
  unfold Form.mentions at h
  split at h
  · next definition =>
      obtain ⟨expr, hexpr, h⟩ := mem_mentionsList.mp h
      obtain ⟨inner, hinner, hall⟩ := expr.occurs_of_mem_mentions h
      refine ⟨_, .functionBody inner definition expr hexpr hinner, fun other => ?_⟩
      rw [hall other, mem_append, mem_reverse]
  · next node constant value =>
      obtain ⟨inner, hinner, hall⟩ := value.occurs_of_mem_mentions h
      exact ⟨inner, .constantValue inner node constant value hinner, by simpa using hall⟩
  · next node dataVar type initial =>
      obtain ⟨inner, hinner, hall⟩ := initial.occurs_of_mem_mentions h
      exact ⟨inner, .initialValue inner node dataVar type initial hinner, by simpa using hall⟩
  · next node token supply =>
      obtain ⟨inner, hinner, hall⟩ := supply.occurs_of_mem_mentions h
      exact ⟨inner, .supply inner node token supply hinner, by simpa using hall⟩
  · cases h

theorem Contract.Occurs.exists_mention {info : NodeInfo} {name : String} {bound : List String}
    (h : contract.Occurs info name bound) :
    ∃ all, ⟨info, name, .expression all⟩ ∈ contract.mentions ∧
      ∀ other, other ∈ all ↔ other ∈ bound := by
  obtain ⟨form, hform, hoccurs⟩ := h
  obtain ⟨all, hmention, hall⟩ := hoccurs.exists_mention
  exact ⟨all, mem_flatMap.mpr ⟨form, hform, hmention⟩, hall⟩

theorem Contract.occurs_of_mem_mentions {info : NodeInfo} {name : String} {all : List String}
    (h : ⟨info, name, .expression all⟩ ∈ contract.mentions) :
    ∃ bound, contract.Occurs info name bound ∧ ∀ other, other ∈ all ↔ other ∈ bound := by
  obtain ⟨form, hform, hmention⟩ := mem_flatMap.mp h
  obtain ⟨bound, hoccurs, hall⟩ := Form.occurs_of_mem_mentions hmention
  exact ⟨bound, ⟨form, hform, hoccurs⟩, hall⟩

/-! ## Every identifier is mentioned once -/

theorem Pattern.identifiers_postorder (pattern : Pattern) :
    pattern.postorder.filterMap Node.identifier? = [] := by
  fun_induction Pattern.postorder pattern <;> simp_all [Node.identifier?]

namespace Expr

variable (bound : List String)

theorem mentionsArgs_append (skipped : Option Nat) (start : Nat) (first second : List Expr) :
    mentionsArgs bound skipped start (first ++ second) = mentionsArgs bound skipped start first ++
        mentionsArgs bound skipped (start + first.length) second := by
  induction first generalizing start with
  | nil => simp [mentionsArgs]
  | cons arg rest ih =>
      rw [cons_append, mentionsArgs, mentionsArgs, ih, append_assoc, length_cons,
        show start + 1 + rest.length = start + (rest.length + 1) by omega]

theorem mentionsArgs_eq_mentionsList (h : ∀ index < args.length, skipped ≠ some (start + index)) :
    mentionsArgs bound skipped start args = mentionsList bound args := by
  induction args generalizing start with
  | nil => rfl
  | cons arg rest ih =>
      have hfirst : skipped ≠ some start := by simpa using h 0 (by simp)
      rw [mentionsArgs, mentionsList, if_neg hfirst, ih]
      intro index hindex
      rw [show start + 1 + index = start + (index + 1) by omega]
      exact h (index + 1) (by simpa using hindex)

theorem mentionsList_append (first second : List Expr) : mentionsList bound (first ++ second) =
      mentionsList bound first ++ mentionsList bound second := by
  induction first with
  | nil => rfl
  | cons expr rest ih => simp [mentionsList, ih]

theorem split_of_ofCall? {mention : Mention}
    (h : Mention.ofCall? callee args = some (position, mention)) :
    ∃ front back, args = front ++ .identifier mention.info mention.name :: back ∧
      position = front.length := by
  have harg := (Mention.ofCall?_eq_some.mp h).2
  obtain ⟨hposition, hget⟩ := List.getElem?_eq_some_iff.mp harg
  refine ⟨args.take position, args.drop (position + 1), ?_, ?_⟩
  · rw [← hget, List.getElem_cons_drop, List.take_append_drop]
  · rw [List.length_take]
    omega

theorem mentions_call_perm (node : NodeInfo) (callee : String) (args : List Expr) :
    ((mentions bound (.call node callee args)).map Mention.identifier).Perm
      ((mentionsList bound args).map Mention.identifier) := by
  rw [mentions, Mention.skipped?]
  cases hcall : Mention.ofCall? callee args with
  | none => simp [mentionsArgs_eq_mentionsList]
  | some found =>
      obtain ⟨position, mention⟩ := found
      obtain ⟨front, back, rfl, rfl⟩ := split_of_ofCall? hcall
      have hfront : mentionsArgs bound (some front.length) 0 front = mentionsList bound front :=
        mentionsArgs_eq_mentionsList bound fun index hindex heq => by
          have := Option.some.inj heq
          omega
      have hback : mentionsArgs bound (some front.length) (0 + front.length + 1) back =
          mentionsList bound back :=
        mentionsArgs_eq_mentionsList bound fun index hindex heq => by
          have := Option.some.inj heq
          omega
      rw [Option.map_some, mentionsArgs_append, mentionsArgs, if_pos (by simp), hfront, hback,
        mentionsList_append, mentionsList, mentions]
      -- The name comes first, and in the arguments it stands behind those in front of it.
      simpa [Mention.identifier] using perm_middle.symm

attribute [local simp] mentions postorder filterMap_cons Node.identifier? Mention.identifier in
mutual

theorem mentions_perm (bound : List String) : (expr : Expr) →
    ((expr.mentions bound).map Mention.identifier).Perm (expr.postorder.filterMap Node.identifier?)
  | .literal _ _ => by simp
  | .identifier _ _ => by simp
  | .call node callee args => by
      have hcall := (mentions_call_perm bound node callee args).trans (mentionsList_perm bound args)
      simpa [-mentions] using hcall
  | .letIn _ bindings body => by
      simpa using (mentionsBindings_perm bound bindings).append (mentionsList_perm _ body)
  | .block _ body => by simpa using mentionsList_perm bound body
  | .conditional _ condition yes none => by
      simpa using (mentions_perm bound condition).append (mentions_perm bound yes)
  | .conditional _ condition yes (some no) => by
      simpa using (mentions_perm bound condition).append ((mentions_perm bound yes).append
        (mentions_perm bound no))
  | .matchOn _ subject arms => by
      simpa using (mentions_perm bound subject).append (mentionsArms_perm bound arms)
  | .list _ elements => by simpa using mentionsList_perm bound elements
  | .tuple _ fields => by simpa using mentionsFields_perm bound fields

theorem mentionsList_perm (bound : List String) : (exprs : List Expr) →
    ((mentionsList bound exprs).map Mention.identifier).Perm
      ((postorderList exprs).filterMap Node.identifier?)
  | [] => by simp [mentionsList, postorderList]
  | expr :: rest => by
      simpa [mentionsList, postorderList] using
        (mentions_perm bound expr).append (mentionsList_perm bound rest)

theorem mentionsBindings_perm (bound : List String) : (bindings : List (Named Expr)) →
    ((mentionsBindings bound bindings).map Mention.identifier).Perm
      ((postorderNamed .binding bindings).filterMap Node.identifier?)
  | [] => by simp [mentionsBindings, postorderNamed]
  | ⟨_, name, value⟩ :: rest => by
      simpa [mentionsBindings, postorderNamed] using
        (mentions_perm bound value).append (mentionsBindings_perm (name :: bound) rest)

theorem mentionsArms_perm (bound : List String) : (arms : List (Arm Expr)) →
    ((mentionsArms bound arms).map Mention.identifier).Perm
      ((postorderArms arms).filterMap Node.identifier?)
  | [] => by simp [mentionsArms, postorderArms]
  | ⟨_, pattern, body⟩ :: rest => by
      simpa [mentionsArms, postorderArms, pattern.identifiers_postorder] using
        (mentionsList_perm _ body).append (mentionsArms_perm bound rest)

theorem mentionsFields_perm (bound : List String) : (fields : List (Named Expr)) →
    ((mentionsFields bound fields).map Mention.identifier).Perm
      ((postorderNamed .field fields).filterMap Node.identifier?)
  | [] => by simp [mentionsFields, postorderNamed]
  | ⟨_, _, value⟩ :: rest => by
      simpa [mentionsFields, postorderNamed] using
        (mentions_perm bound value).append (mentionsFields_perm bound rest)

end

end Expr

theorem Form.mentions_subperm (form : Form) :
    (form.mentions.map Mention.identifier).Subperm (form.postorder.filterMap Node.identifier?) := by
  have hparts : (form.mentions.map Mention.identifier).Subperm
      ((postorderList form.parts).filterMap Node.identifier?) := by
    unfold Form.mentions
    split
    · exact (mentionsList_perm _ _).subperm
    · next value => simpa [parts, postorderList] using (value.mentions_perm []).subperm
    · next initial => simpa [parts, postorderList] using (initial.mentions_perm []).subperm
    · next supply => simpa [parts, postorderList] using (supply.mentions_perm []).subperm
    · exact nil_subperm
  simpa [Form.postorder, filterMap_cons, Node.identifier?] using hparts

theorem Contract.mentions_subperm (contract : Contract) :
    (contract.mentions.map Mention.identifier).Subperm
      (contract.postorder.filterMap Node.identifier?) := by
  have hforms (forms : List Form) : ((forms.flatMap Form.mentions).map Mention.identifier).Subperm
      ((forms.flatMap Form.postorder).filterMap Node.identifier?) := by
    induction forms with
    | nil => exact nil_subperm
    | cons form rest ih => simpa using form.mentions_subperm.append ih
  simpa [Contract.mentions, Contract.postorder, filterMap_cons, Node.identifier?] using
    hforms contract.body

end ContractAudit
