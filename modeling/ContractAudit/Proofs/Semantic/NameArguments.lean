import ContractAudit.Proofs.Semantic.Calls

/-!
# Names that calls take

A builtin function can take an argument as a name and not as an expression. A visit meets such a
name when it comes to the call, so the names taken in an expression are listed by its mentions and
by its calls in the same order.
-/

namespace ContractAudit

open CallSite Mention List

open Facts (CallSite)

def CallSite.taken? (site : CallSite) : Option Mention :=
  (ofCall? site.info.name site.args).map Prod.snd

namespace Expr

open Mention (isTaken)

variable (bound : List String)

theorem mentionsArgs_filter_isTaken (skipped : Option Nat) (start : Nat) (args : List Expr)
    (h : ∀ index arg, args[index]? = some arg → skipped = some (start + index) →
      (arg.mentions bound).filter isTaken = []) :
    (mentionsArgs bound skipped start args).filter isTaken =
      (mentionsList bound args).filter isTaken := by
  induction args generalizing start with
  | nil => rfl
  | cons arg rest ih =>
      have hrest := ih (start + 1) fun index found hfound hskipped =>
        h (index + 1) found (by simpa using hfound) (by rw [hskipped]; congr 1; omega)
      rw [mentionsArgs, mentionsList, filter_append, filter_append, hrest]
      congr 1
      split
      · next hskipped => exact (h 0 arg rfl hskipped).symm
      · rfl

theorem filter_mentions_skipped {callee : String} {args : List Expr} {index : Nat} {arg : Expr}
    (harg : args[index]? = some arg) (h : skipped? callee args = some index) :
    (arg.mentions bound).filter isTaken = [] := by
  obtain ⟨⟨position, mention⟩, hcall, rfl⟩ := Option.map_eq_some_iff.mp h
  obtain ⟨front, back, rfl, rfl⟩ := split_of_ofCall? hcall
  obtain rfl : .identifier mention.info mention.name = arg := by simpa using harg
  rfl

attribute [local simp] mentions calls mentionsList callsList callsNamed mentionsBindings
  mentionsArms callsArms mentionsFields in
mutual

theorem mentions_filter_isTaken (bound : List String) : (expr : Expr) →
    (expr.mentions bound).filter isTaken = expr.calls.filterMap taken?
  | .literal _ _ => by simp
  | .identifier _ _ => by simp [isTaken]
  | .call _ callee args => by
      have hargs := mentionsArgs_filter_isTaken bound (skipped? callee args) 0 args
        fun index arg harg hskipped =>
          filter_mentions_skipped bound harg (by simpa using hskipped)
      rw [mentions, calls, filter_append, hargs, mentionsList_filter_isTaken bound args,
        filterMap_cons]
      cases hcall : ofCall? callee args with
      | none => simp [taken?, CallInfo.ofCall, hcall]
      | some found => simp [taken?, CallInfo.ofCall, hcall, isTaken_of_ofCall? hcall]
  | .letIn _ bindings body => by
      simp [mentionsBindings_filter_isTaken _ bindings, mentionsList_filter_isTaken _ body]
  | .block _ body => by simp [mentionsList_filter_isTaken _ body]
  | .conditional _ condition yes none => by
      simp [mentions_filter_isTaken _ condition, mentions_filter_isTaken _ yes]
  | .conditional _ condition yes (some no) => by
      simp [mentions_filter_isTaken _ condition, mentions_filter_isTaken _ yes,
        mentions_filter_isTaken _ no]
  | .matchOn _ subject arms => by
      simp [mentions_filter_isTaken _ subject, mentionsArms_filter_isTaken _ arms]
  | .list _ elements => by simp [mentionsList_filter_isTaken _ elements]
  | .tuple _ fields => by simp [mentionsFields_filter_isTaken _ fields]

theorem mentionsList_filter_isTaken (bound : List String) : (exprs : List Expr) →
    (mentionsList bound exprs).filter isTaken = (callsList exprs).filterMap taken?
  | [] => rfl
  | expr :: rest => by
      simp [mentions_filter_isTaken _ expr, mentionsList_filter_isTaken _ rest]

theorem mentionsBindings_filter_isTaken (bound : List String) : (bindings : List (Named Expr)) →
    (mentionsBindings bound bindings).filter isTaken =
      (callsNamed bindings).filterMap taken?
  | [] => rfl
  | ⟨_, _, value⟩ :: rest => by
      simp [mentions_filter_isTaken _ value, mentionsBindings_filter_isTaken _ rest]

theorem mentionsArms_filter_isTaken (bound : List String) : (arms : List (Arm Expr)) →
    (mentionsArms bound arms).filter isTaken = (callsArms arms).filterMap taken?
  | [] => rfl
  | ⟨_, _, body⟩ :: rest => by
      simp [mentionsList_filter_isTaken _ body, mentionsArms_filter_isTaken _ rest]

theorem mentionsFields_filter_isTaken (bound : List String) : (fields : List (Named Expr)) →
    (mentionsFields bound fields).filter isTaken = (callsNamed fields).filterMap taken?
  | [] => rfl
  | ⟨_, _, value⟩ :: rest => by
      simp [mentions_filter_isTaken _ value, mentionsFields_filter_isTaken _ rest]

end

theorem mem_mentionsList_iff_taken {bound : List String} {body : List Expr} {mention : Mention}
    (h : mention.isTaken = true) :
    mention ∈ mentionsList bound body ↔ ∃ info callee args position,
      CallWithin body info callee args ∧
        ofCall? callee args = some (position, mention) := by
  have hmem : mention ∈ mentionsList bound body ↔
      mention ∈ (mentionsList bound body).filter isTaken := by simp [h]
  rw [hmem, mentionsList_filter_isTaken, mem_filterMap]
  constructor
  · rintro ⟨site, hsite, htaken⟩
    obtain ⟨expr, hexpr, info, callee, args, hwithin, rfl⟩ := mem_callsList.mp hsite
    obtain ⟨⟨position, _⟩, hcall, rfl⟩ := Option.map_eq_some_iff.mp htaken
    exact ⟨info, callee, args, position, ⟨expr, hexpr, hwithin⟩, hcall⟩
  · rintro ⟨info, callee, args, position, hcall, htaken⟩
    exact ⟨_, mem_callsList_iff.mpr hcall, Option.map_eq_some_iff.mpr ⟨_, htaken, rfl⟩⟩

end Expr

end ContractAudit
