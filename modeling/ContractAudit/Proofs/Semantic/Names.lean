import ContractAudit.Proofs.Semantic.Mentions
import ContractAudit.Proofs.Table

/-!
# Names that an analysis knows

The local names of a scope and the declared names of an environment settle what an identifier refers
to. `Met` says which identifiers have been settled between two states of an analysis: each is
recorded with what it refers to, or reported if it refers to nothing.
-/

namespace ContractAudit

open List Mention Scope

variable {name : String}

/-! ## Local and declared names -/

namespace Scope

variable (scope : Scope)

def names (scope : Scope) : List String :=
  (scope.bindings :: scope.outer).flatten.map Prod.fst

@[simp]
theorem names_empty : empty.names = [] := rfl

@[simp]
theorem names_child : scope.child.names = scope.names := by simp [names, child]

@[simp]
theorem names_define (name : String) (type : ValueType) :
    (scope.define name type).names = name :: scope.names := rfl

theorem lookup?_eq_none_iff {scope : Scope} : scope.lookup? name = none ↔ name ∉ scope.names := by
  simp only [lookup?, findSome?_eq_none_iff, lookup_eq_none_iff, names, mem_map,
    mem_flatten, not_exists, not_and, bne_iff_ne]
  constructor
  · rintro h entry ⟨frame, hframe, hentry⟩ rfl
    exact h frame hframe entry hentry rfl
  · rintro h frame hframe entry hentry rfl
    exact h entry ⟨frame, hframe, hentry⟩ rfl

theorem names_foldl_define {α : Type} (name : α → String) (type : α → ValueType) (items : List α)
    (scope : Scope) :
    (items.foldl (fun inner item => inner.define (name item) (type item)) scope).names =
      (items.map name).reverse ++ scope.names := by
  induction items generalizing scope with
  | nil => rfl
  | cons item rest ih => simp [ih]

/-- That a scope has some names bound over another one in the innermost frame, the latest first. -/
def Opens (names : List String) (outer inner : Scope) : Prop :=
  ∃ added : Frame, added.map Prod.fst = names ∧
    inner = { outer with bindings := added ++ outer.bindings }

namespace Opens

variable {first second : List String} {outer middle inner : Scope}

theorem refl : Opens [] scope scope :=
  ⟨[], rfl, rfl⟩

theorem eq (h : Opens [] outer inner) : inner = outer := by
  obtain ⟨added, hadded, rfl⟩ := h
  obtain rfl := map_eq_nil_iff.mp hadded
  rfl

theorem trans (hfirst : Opens first outer middle) (hsecond : Opens second middle inner) :
    Opens (second ++ first) outer inner := by
  obtain ⟨earlier, rfl, rfl⟩ := hfirst
  obtain ⟨later, rfl, rfl⟩ := hsecond
  exact ⟨later ++ earlier, map_append, by rw [append_assoc]⟩

theorem names (h : Opens first outer inner) : inner.names = first ++ outer.names := by
  obtain ⟨added, rfl, rfl⟩ := h
  simp [names]

end Opens

end Scope

theorem Analyzer.names_armScope (subject : ValueType) (pattern : Pattern) (index : Nat)
    (scope : Scope) :
    (armScope subject pattern index scope).names = pattern.boundNames.reverse ++ scope.names := by
  unfold armScope
  split
  · next hnames => simp [hnames]
  · simpa using names_foldl_define id (fun _ => boundType subject pattern index)
      pattern.boundNames scope.child

theorem Analyzer.names_functionScope (function : FunctionDef) :
    (functionScope function).names = (function.params.map Parameter.name).reverse := by
  rw [functionScope, names_foldl_define, names_empty, append_nil]

def Environment.declares (environment : Environment) : Referent → String → Bool
  | .constant, name => environment.constants.contains name
  | .variable, name => environment.dataVars.contains name
  | .function, name => environment.functions.contains name
  | .map, name => environment.maps.contains name
  | .token, name => environment.tokens.contains name
  | _, _ => false

def Environment.names (environment : Environment) : Referent → List String
  | .constant => environment.constants.keys
  | .variable => environment.dataVars.keys
  | .function => environment.functions.keys
  | .map => environment.maps.keys
  | .token => environment.tokens.keys
  | _ => []

theorem Environment.declares_iff {environment : Environment} {kind : Referent} :
    environment.declares kind name = true ↔ name ∈ environment.names kind := by
  cases kind <;> simp [declares, names, Table.contains_iff]

theorem Environment.declares_congr {first second : Environment} (h : first.names = second.names) :
    first.declares = second.declares := by
  funext kind name
  rw [Bool.eq_iff_iff, declares_iff, declares_iff, h]

/-! ## Settled mentions -/

namespace Mention

open Parse

def resolution? (defines : Referent → String → Bool) (mention : Mention) : Option Resolution :=
  match mention.role with
  | .word kind => some ⟨kind, mention.name⟩
  | .storage kind =>
      if mention.name = placeholder then none
      else if defines kind mention.name then some ⟨kind, mention.name⟩
      else none
  | .expression bound =>
      if mention.name = placeholder then none
      else if mention.name ∈ bound then some ⟨.local, mention.name⟩
      else globalReferent? defines mention.name

def error? (defines : Referent → String → Bool) (mention : Mention) : Option Diagnostic :=
  if mention.name ≠ placeholder ∧ mention.resolution? defines = none then
    some (.error .semantic .undefinedIdentifier s!"Undefined identifier: {mention.name}"
      mention.info.span.start)
  else none

def enter (defines : Referent → String → Bool) (resolutions : Table Nat Resolution)
    (mention : Mention) : Table Nat Resolution :=
  match mention.resolution? defines with
  | some resolution => resolutions.insert mention.info.id resolution
  | none => resolutions

end Mention

/-- Between two states of an analysis some mentions have been settled, and nothing else has been
recorded or reported about names. -/
structure Met (mentions : List Mention) (before after : Analysis) : Prop where
  names : after.environment.names = before.environment.names
  resolutions : after.facts.resolutions =
    mentions.foldl (enter before.environment.declares) before.facts.resolutions
  errors : after.errors =
    before.errors ++ mentions.filterMap (error? before.environment.declares)

namespace Met

variable {before middle after : Analysis} {mention : Mention} {mentions first second : List Mention}

theorem refl (analysis : Analysis) : Met [] analysis analysis :=
  ⟨rfl, rfl, by simp⟩

theorem declares (h : Met mentions before after) :
    after.environment.declares = before.environment.declares :=
  Environment.declares_congr h.names

theorem append (hfirst : Met first before middle) (hsecond : Met second middle after) :
    Met (first ++ second) before after where
  names := hsecond.names.trans hfirst.names
  resolutions := by rw [hsecond.resolutions, hfirst.declares, hfirst.resolutions, foldl_append]
  errors := by rw [hsecond.errors, hfirst.declares, hfirst.errors, filterMap_append, append_assoc]

theorem of_resolution {resolution : Resolution}
    (h : mention.resolution? before.environment.declares = some resolution)
    (hnames : after.environment.names = before.environment.names)
    (hresolutions : after.facts.resolutions =
      before.facts.resolutions.insert mention.info.id resolution)
    (herrors : after.errors = before.errors) : Met [mention] before after where
  names := hnames
  resolutions := by simp [hresolutions, enter, h]
  errors := by simp [herrors, error?, h]

theorem of_undefined (hname : mention.name ≠ Parse.placeholder)
    (h : mention.resolution? before.environment.declares = none) :
    Met [mention] before (before.reportError .undefinedIdentifier
      s!"Undefined identifier: {mention.name}" mention.info.span.start) where
  names := rfl
  resolutions := by simp [enter, h, Analysis.reportError]
  errors := by simp [error?, hname, h, Analysis.reportError]

theorem of_placeholder (hname : mention.name = Parse.placeholder)
    (h : mention.resolution? before.environment.declares = none) : Met [mention] before before where
  names := rfl
  resolutions := by simp [enter, h]
  errors := by simp [error?, hname]

end Met

end ContractAudit
