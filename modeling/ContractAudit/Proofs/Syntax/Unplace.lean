import ContractAudit.Proofs.Syntax.Print
import ContractAudit.Proofs.Syntax.Walk

/-!
# Syntax without places

`unplace` takes the places from a tree and leaves the numbers of its nodes; `erase` takes both. Two
trees that are numbered alike in post-order are equal up to places if they are equal up to places
and numbers. What the analyses read off a tree, its nodes in order and the types written in it, is
the same without places.
-/

namespace ContractAudit

open List Function

variable (form : Form) (info : NodeInfo)

/-! ## Trees without places -/

def NodeInfo.unplace (info : NodeInfo) : NodeInfo :=
  ⟨.nowhere, info.id⟩

def Pattern.unplace : Pattern → Pattern
  | .wrapper info kind (some inner) => .wrapper info.unplace kind (some inner.unplace)
  | .wrapper info kind .none => .wrapper info.unplace kind .none
  | .none info => .none info.unplace
  | .identifier info name => .identifier info.unplace name
  | .literal info inner value => .literal info.unplace inner.unplace value

namespace Expr

mutual

def unplace : Expr → Expr
  | .literal info value => .literal info.unplace value
  | .identifier info name => .identifier info.unplace name
  | .call info callee args => .call info.unplace callee (unplaceList args)
  | .letIn info bindings body => .letIn info.unplace (unplaceNamed bindings) (unplaceList body)
  | .block info body => .block info.unplace (unplaceList body)
  | .conditional info condition yes none =>
      .conditional info.unplace condition.unplace yes.unplace none
  | .conditional info condition yes (some no) =>
      .conditional info.unplace condition.unplace yes.unplace (some no.unplace)
  | .matchOn info subject arms => .matchOn info.unplace subject.unplace (unplaceArms arms)
  | .list info elements => .list info.unplace (unplaceList elements)
  | .tuple info fields => .tuple info.unplace (unplaceNamed fields)

def unplaceList : List Expr → List Expr
  | [] => []
  | expr :: rest => expr.unplace :: unplaceList rest

def unplaceNamed : List (Named Expr) → List (Named Expr)
  | [] => []
  | ⟨info, name, value⟩ :: rest => ⟨info.unplace, name, value.unplace⟩ :: unplaceNamed rest

def unplaceArms : List (Arm Expr) → List (Arm Expr)
  | [] => []
  | ⟨info, pattern, body⟩ :: rest =>
      ⟨info.unplace, pattern.unplace, unplaceList body⟩ :: unplaceArms rest

end

end Expr

def Named.unplace (entry : Named Expr) : Named Expr :=
  ⟨entry.info.unplace, entry.name, entry.value.unplace⟩

def Arm.unplace (arm : Arm Expr) : Arm Expr :=
  ⟨arm.info.unplace, arm.pattern.unplace, arm.body.map Expr.unplace⟩

def FunctionDef.unplace (function : FunctionDef) : FunctionDef :=
  { function with
    info := function.info.unplace
    params := function.params.map Parameter.erase
    body := function.body.map Expr.unplace }

def Form.unplace : Form → Form
  | .function definition => .function definition.unplace
  | .constant info name value => .constant info.unplace name value.unplace
  | .map info name key value => .map info.unplace name key.erase value.erase
  | .dataVar info name type initial => .dataVar info.unplace name type.erase initial.unplace
  | .nonFungible info name type => .nonFungible info.unplace name type.erase
  | .fungible info name supply => .fungible info.unplace name (supply.map Expr.unplace)
  | .trait info name functions => .trait info.unplace name (functions.map TraitFunction.erase)
  | .useTrait info name reference => .useTrait info.unplace name reference.unplace
  | .implTrait info reference => .implTrait info.unplace reference.unplace

def Contract.unplace (contract : Contract) : Contract :=
  ⟨contract.info.unplace, contract.body.map Form.unplace⟩

def Node.unplace : Node → Node
  | .contract whole => .contract whole.unplace
  | .form top => .form top.unplace
  | .expr e => .expr e.unplace
  | .binding b => .binding b.unplace
  | .arm a => .arm a.unplace
  | .pattern p => .pattern p.unplace
  | .field f => .field f.unplace

/-! ## Parts -/

@[simp]
theorem Pattern.unplace_wrapper (kind : Wrapper) (inner : Option Pattern) :
    (Pattern.wrapper info kind inner).unplace = .wrapper info.unplace kind (inner.map unplace) := by
  cases inner <;> simp [unplace]

@[simp]
theorem Pattern.boundNames_unplace : (pattern : Pattern) →
    pattern.unplace.boundNames = pattern.boundNames
  | .wrapper info kind (some inner) => by simpa [boundNames] using boundNames_unplace inner
  | .wrapper info kind .none | .none info | .identifier info name | .literal info inner value => by
      simp [unplace, boundNames]

namespace Expr

variable (expr : Expr)

@[simp]
theorem unplaceList_eq (exprs : List Expr) : unplaceList exprs = exprs.map unplace := by
  induction exprs with
  | nil => rfl
  | cons expr rest ih => simp [unplaceList, ih]

@[simp]
theorem unplaceNamed_eq (named : List (Named Expr)) :
    unplaceNamed named = named.map Named.unplace := by
  induction named with
  | nil => rfl
  | cons entry rest ih => simp [unplaceNamed, Named.unplace, ih]

@[simp]
theorem unplaceArms_eq (arms : List (Arm Expr)) : unplaceArms arms = arms.map Arm.unplace := by
  induction arms with
  | nil => rfl
  | cons arm rest ih => simp [unplaceArms, Arm.unplace, ih]

theorem unplace_conditional (condition yes : Expr) (no : Option Expr) :
    (Expr.conditional info condition yes no).unplace =
      .conditional info.unplace condition.unplace yes.unplace (no.map unplace) := by
  cases no <;> simp [unplace]

@[simp]
theorem info_unplace : expr.unplace.info = expr.info.unplace := by
  cases expr with
  | conditional => rw [unplace_conditional]; rfl
  | _ => simp [unplace, info]

theorem location_unplace : expr.unplace.location = .nowhere := by
  rw [location, info_unplace]
  rfl

end Expr

namespace Form

@[simp]
theorem kind_unplace : form.unplace.kind = form.kind := by cases form <;> rfl

theorem function?_unplace : form.unplace.function? = form.function?.map FunctionDef.unplace := by
  cases form <;> rfl

theorem children_unplace : form.unplace.children = form.children.map Expr.unplace := by
  cases form with
  | fungible info name supply => cases supply <;> rfl
  | _ => rfl

end Form

theorem Contract.functions_unplace (contract : Contract) :
    contract.unplace.functions = contract.functions.map FunctionDef.unplace := by
  simp [functions, unplace, filterMap_map, map_filterMap, Form.function?_unplace]

/-! ## Types -/

namespace TypeSpec

theorem firstSize?_eraseParams (params : List TypeParam) :
    firstSize? (eraseParams params) = firstSize? params := by
  induction params with
  | nil => rfl
  | cons param rest ih =>
      cases param with
      | size value => rfl
      | type spec => exact ih

mutual

theorem toValueType_erase : (spec : TypeSpec) → spec.erase.toValueType = spec.toValueType
  | .named span name params => by
      rw [erase, toValueType, toValueType, firstSize?_eraseParams,
        componentTypes_eraseParams params]
  | .tuple span fields => by rw [erase, toValueType, toValueType, fieldTypes_eraseFields fields]

theorem componentTypes_eraseParams : (params : List TypeParam) →
    componentTypes (eraseParams params) = componentTypes params
  | [] => rfl
  | .size value :: rest => by
      rw [eraseParams, componentTypes, componentTypes, componentTypes_eraseParams rest]
  | .type spec :: rest => by
      rw [eraseParams, componentTypes, componentTypes, toValueType_erase spec,
        componentTypes_eraseParams rest]

theorem fieldTypes_eraseFields : (fields : List (String × TypeSpec)) →
    fieldTypes (eraseFields fields) = fieldTypes fields
  | [] => rfl
  | (name, spec) :: rest => by
      rw [eraseFields, fieldTypes, fieldTypes, toValueType_erase spec, fieldTypes_eraseFields rest]

end

end TypeSpec

/-! ## Walks -/

namespace Node

variable (node : Node)

theorem children_unplace : node.unplace.children = node.children.map unplace := by
  cases node with
  | contract whole => simp [unplace, Contract.unplace, children, comp_def]
  | form top => simp [unplace, children, Form.children_unplace, comp_def]
  | binding b => rfl
  | field f => rfl
  | arm a => simp [unplace, Arm.unplace, children, comp_def]
  | pattern p => rcases p with ⟨_, _, _ | _⟩ | _ | _ | _ <;> rfl
  | expr e =>
      cases e with
      | conditional info condition yes no => cases no <;> rfl
      | _ => simp [unplace, Expr.unplace, children, comp_def]

theorem nodeCount_lt {node child : Node} (h : child ∈ node.children) :
    child.nodeCount < node.nodeCount := by
  obtain ⟨front, back, hchildren⟩ := append_of_mem h
  rw [nodeCount_eq node, hchildren, nodeCounts_append, nodeCounts_cons]
  omega

theorem walk_unplace : node.unplace.walk = node.walk.map unplace := by
  induction hcount : node.nodeCount using Nat.strongRecOn generalizing node with
  | ind count ih =>
      have hchildren : ∀ child ∈ node.children, child.unplace.walk = child.walk.map unplace :=
        fun child hchild => ih child.nodeCount (hcount ▸ nodeCount_lt hchild) child rfl
      rw [walk_eq, walk_eq node, children_unplace, map_cons, map_flatMap, flatMap_map]
      exact congrArg _ (flatMap_congr hchildren)

end Node

theorem walkBody_unplace (body : List Expr) :
    walkBody (body.map Expr.unplace) = (walkBody body).map Node.unplace := by
  rw [walkBody, walkBody, flatMap_map, map_flatMap]
  exact flatMap_congr fun expr _ => (Node.expr expr).walk_unplace

/-! ## Numbered trees -/

def Node.ids (nodes : List Node) : List Nat :=
  nodes.map (·.info.id)

theorem Node.ids_append (first second : List Node) :
    ids (first ++ second) = ids first ++ ids second :=
  map_append

open Node (ids ids_append)

/-- That the same numbers, before any others, have some nodes to their ends and make something
hold. -/
def Settles (nodes others : List Node) (fact : Prop) : Prop :=
  ∀ more more', ids nodes ++ more = ids others ++ more' → fact ∧ more = more'

namespace Settles

variable {nodes others next next' : List Node} {fact fact' : Prop}

theorem nil : Settles [] [] True :=
  fun _ _ h => ⟨trivial, h⟩

theorem node (node other : Node) :
    Settles [node] [other] (node.info.unplace = other.info.unplace) := by
  intro more more' h
  obtain ⟨hid, hmore⟩ := cons.inj h
  exact ⟨congrArg (NodeInfo.mk .nowhere) hid, hmore⟩

theorem both (h : Settles nodes others fact) (hnext : Settles next next' fact') :
    Settles (nodes ++ next) (others ++ next') (fact ∧ fact') := by
  intro more more' hids
  rw [ids_append, ids_append, append_assoc, append_assoc] at hids
  obtain ⟨hfact, hrest⟩ := h _ _ hids
  obtain ⟨hfact', hmore⟩ := hnext _ _ hrest
  exact ⟨⟨hfact, hfact'⟩, hmore⟩

theorem imp (h : Settles nodes others fact) (himp : fact → fact') : Settles nodes others fact' :=
  fun more more' hids => (h more more' hids).imp_left himp

theorem closed {node other : Node} (h : Settles nodes others fact)
    (hnode : fact → node.info.unplace = other.info.unplace → fact') :
    Settles (nodes ++ [node]) (others ++ [other]) fact' :=
  (h.both (.node node other)).imp fun hparts => hnode hparts.1 hparts.2

end Settles

theorem Pattern.settles : (pattern other : Pattern) → pattern.erase = other.erase →
    Settles pattern.postorder other.postorder (pattern.unplace = other.unplace)
  | .wrapper _ _ (some inner), other, h => by
      rcases other with ⟨_, _, _ | inner'⟩ | _ | _ | _ <;> simp [erase] at h
      refine (settles inner inner' h.2).closed fun hinner hinfo => ?_
      simp_all [unplace, Node.info, Pattern.info]
  | .literal _ inner value, other, h => by
      rcases other with ⟨_, _, _ | _⟩ | _ | _ | ⟨_, inner', value'⟩ <;> simp [erase] at h
      refine (Settles.node (.expr (.literal inner value)) (.expr (.literal inner' value'))).closed
        fun hinner hinfo => ?_
      simp_all [unplace, Node.info, Pattern.info, Expr.info]
  | .wrapper _ _ .none, other, h | .none _, other, h | .identifier _ _, other, h => by
      rcases other with ⟨_, _, _ | _⟩ | _ | _ | _ <;> simp [erase] at h
      exact (Settles.node _ _).imp fun hinfo => by simp_all [unplace, Node.info, Pattern.info]

namespace Expr

mutual

/-- Equal expressions with the same numbers are equal up to their places. -/
theorem settles : (expr other : Expr) → expr.erase = other.erase →
    Settles expr.postorder other.postorder (expr.unplace = other.unplace)
  | .literal _ _, other, h | .identifier _ _, other, h => by
      cases other <;> simp [erase, erase_conditional] at h
      exact (Settles.node _ _).imp fun hinfo => by simp_all [unplace, Node.info, Expr.info]
  | .call _ _ args, other, h => by
      cases other <;> simp [erase, erase_conditional] at h
      refine (settlesList args _ h.2).closed fun hargs hinfo => ?_
      simp_all [unplace, Node.info, Expr.info]
  | .letIn _ bindings body, other, h => by
      cases other <;> simp [erase, erase_conditional] at h
      refine ((settlesNamed .binding (fun _ => rfl) bindings _ h.1).both
        (settlesList body _ h.2)).closed fun hparts hinfo => ?_
      simp_all [unplace, Node.info, Expr.info]
  | .block _ body, other, h | .list _ body, other, h => by
      cases other <;> simp [erase, erase_conditional] at h
      refine (settlesList body _ h).closed fun hbody hinfo => ?_
      simp_all [unplace, Node.info, Expr.info]
  | .conditional _ condition yes none, other, h => by
      rcases other with _ | _ | _ | _ | _ | ⟨_, _, _, _ | _⟩ | _ | _ | _ <;> simp [erase] at h
      refine ((settles condition _ h.1).both (settles yes _ h.2)).closed fun hparts hinfo => ?_
      simp_all [unplace, Node.info, Expr.info]
  | .conditional _ condition yes (some no), other, h => by
      rcases other with _ | _ | _ | _ | _ | ⟨_, _, _, _ | no'⟩ | _ | _ | _ <;> simp [erase] at h
      refine (((settles condition _ h.1).both (settles yes _ h.2.1)).both
        (settles no no' h.2.2)).closed fun hparts hinfo => ?_
      simp_all [unplace, Node.info, Expr.info]
  | .matchOn _ subject arms, other, h => by
      cases other <;> simp [erase, erase_conditional] at h
      refine ((settles subject _ h.1).both (settlesArms arms _ h.2)).closed fun hparts hinfo => ?_
      simp_all [unplace, Node.info, Expr.info]
  | .tuple _ fields, other, h => by
      cases other <;> simp [erase, erase_conditional] at h
      refine (settlesNamed .field (fun _ => rfl) fields _ h).closed fun hfields hinfo => ?_
      simp_all [unplace, Node.info, Expr.info]

theorem settlesList : (exprs others : List Expr) → eraseList exprs = eraseList others →
    Settles (postorderList exprs) (postorderList others) (unplaceList exprs = unplaceList others)
  | [], [], _ => .imp .nil fun _ => rfl
  | expr :: rest, other :: others, h => by
      obtain ⟨hexpr, hrest⟩ := cons.inj h
      refine ((settles expr other hexpr).both (settlesList rest others hrest)).imp fun hparts => ?_
      rw [unplaceList, unplaceList, hparts.1, hparts.2]

theorem settlesNamed (node : Named Expr → Node) (hnode : ∀ entry, (node entry).info = entry.info) :
    (named others : List (Named Expr)) → eraseNamed named = eraseNamed others →
      Settles (postorderNamed node named) (postorderNamed node others)
        (unplaceNamed named = unplaceNamed others)
  | [], [], _ => .imp .nil fun _ => rfl
  | ⟨_, _, value⟩ :: rest, ⟨_, _, value'⟩ :: others, h => by
      simp only [eraseNamed, cons.injEq, Named.mk.injEq, true_and] at h
      refine ((settles value value' h.1.2).both
        ((Settles.node _ _).both (settlesNamed node hnode rest others h.2))).imp fun hparts => ?_
      simp_all [unplaceNamed]

theorem settlesArms : (arms others : List (Arm Expr)) → eraseArms arms = eraseArms others →
    Settles (postorderArms arms) (postorderArms others) (unplaceArms arms = unplaceArms others)
  | [], [], _ => .imp .nil fun _ => rfl
  | ⟨_, pattern, body⟩ :: rest, ⟨_, pattern', body'⟩ :: others, h => by
      simp only [eraseArms, cons.injEq, Arm.mk.injEq, true_and] at h
      refine ((pattern.settles pattern' h.1.1).both ((settlesList body body' h.1.2).both
        ((Settles.node _ _).both (settlesArms rest others h.2)))).imp fun hparts => ?_
      simp_all [unplaceArms, Node.info]

end

end Expr

theorem Form.parts_erase : form.erase.parts = Expr.eraseList form.parts := by
  cases form with
  | fungible info name supply => cases supply <;> rfl
  | _ => rfl

theorem Form.settles (other : Form) (h : form.erase = other.erase) :
    Settles form.postorder other.postorder (form.unplace = other.unplace) := by
  have hsame : Expr.eraseList form.parts = Expr.eraseList other.parts := by
    rw [← parts_erase, ← parts_erase, h]
  refine (Expr.settlesList form.parts other.parts hsame).closed fun hparts hinfo => ?_
  cases form <;> cases other
  case fungible.fungible _ _ supply _ _ supply' =>
    cases supply <;> cases supply' <;> simp_all [erase, unplace, parts, Node.info, info]
  all_goals simp_all [erase, unplace, FunctionDef.unplace, parts, Node.info, info]

theorem settles_flatMap : (forms others : List Form) →
    forms.map Form.erase = others.map Form.erase →
      Settles (forms.flatMap Form.postorder) (others.flatMap Form.postorder)
        (forms.map Form.unplace = others.map Form.unplace)
  | [], [], _ => .imp .nil fun _ => rfl
  | form :: rest, other :: others, h => by
      obtain ⟨hform, hrest⟩ := cons.inj h
      refine ((form.settles other hform).both (settles_flatMap rest others hrest)).imp ?_
      exact fun hparts => congrArg₂ cons hparts.1 hparts.2

theorem Contract.unplace_eq_of_range {first second : Contract} {count count' : Nat}
    (h : first.erase = second.erase) (hfirst : ids first.postorder = range count)
    (hsecond : ids second.postorder = range count') : first.unplace = second.unplace := by
  have hsettles : Settles first.postorder second.postorder (first.unplace = second.unplace) := by
    refine (settles_flatMap _ _ (Contract.mk.inj h).2).closed fun hbody hinfo => ?_
    exact congrArg₂ Contract.mk hinfo hbody
  refine (hsettles ((range count').map (count + ·)) ((range count).map (count' + ·)) ?_).1
  rw [hfirst, hsecond, ← range_add, ← range_add, Nat.add_comm]

end ContractAudit
