import Mathlib.Data.List.Flatten
import ContractAudit.Syntax.Node

/-!
# Nodes in post-order

The nodes of a syntax tree with every node behind the nodes below it, in source order. Unlike
`Node.walk` the list has the reference of a trait declaration too, so that it has every node that a
parse numbers. `Node.postorder_eq` is the law of the order, and `Node.mem_postorder` says that
the list has exactly the nodes of the tree.
-/

namespace ContractAudit

open List

def Node.identifier? : Node → Option (NodeInfo × String)
  | .expr (.identifier info name) => some (info, name)
  | _ => none

def Pattern.postorder : Pattern → List Node
  | .wrapper info kind (some inner) =>
      inner.postorder ++ [.pattern (.wrapper info kind (some inner))]
  | .wrapper info kind .none => [.pattern (.wrapper info kind .none)]
  | .none info => [.pattern (.none info)]
  | .identifier info name => [.pattern (.identifier info name)]
  | .literal info literalInfo value =>
      [.expr (.literal literalInfo value), .pattern (.literal info literalInfo value)]

namespace Expr

mutual

def postorder : Expr → List Node
  | .literal info value => [.expr (.literal info value)]
  | .identifier info name => [.expr (.identifier info name)]
  | .call info callee args => postorderList args ++ [.expr (.call info callee args)]
  | .letIn info bindings body =>
      postorderNamed .binding bindings ++ postorderList body ++ [.expr (.letIn info bindings body)]
  | .block info body => postorderList body ++ [.expr (.block info body)]
  | .conditional info condition yes none =>
      condition.postorder ++ yes.postorder ++ [.expr (.conditional info condition yes none)]
  | .conditional info condition yes (some no) =>
      condition.postorder ++ yes.postorder ++ no.postorder ++
        [.expr (.conditional info condition yes (some no))]
  | .matchOn info subject arms =>
      subject.postorder ++ postorderArms arms ++ [.expr (.matchOn info subject arms)]
  | .list info elements => postorderList elements ++ [.expr (.list info elements)]
  | .tuple info fields => postorderNamed .field fields ++ [.expr (.tuple info fields)]

def postorderList : List Expr → List Node
  | [] => []
  | expr :: rest => expr.postorder ++ postorderList rest

def postorderNamed (node : Named Expr → Node) : List (Named Expr) → List Node
  | [] => []
  | ⟨info, name, value⟩ :: rest =>
      value.postorder ++ node ⟨info, name, value⟩ :: postorderNamed node rest

def postorderArms : List (Arm Expr) → List Node
  | [] => []
  | ⟨info, pattern, body⟩ :: rest =>
      pattern.postorder ++ (postorderList body ++ .arm ⟨info, pattern, body⟩ :: postorderArms rest)

end

theorem postorderList_eq (exprs : List Expr) : postorderList exprs = exprs.flatMap postorder := by
  induction exprs with
  | nil => rfl
  | cons expr rest ih => simp [postorderList, ih]

theorem postorderNamed_eq (node : Named Expr → Node) (named : List (Named Expr)) :
    postorderNamed node named =
      named.flatMap fun entry => entry.value.postorder ++ [node entry] := by
  induction named with
  | nil => rfl
  | cons entry rest ih => simp [postorderNamed, ih]

theorem postorderArms_eq (arms : List (Arm Expr)) : postorderArms arms = arms.flatMap fun arm =>
      arm.pattern.postorder ++ arm.body.flatMap postorder ++ [.arm arm] := by
  induction arms with
  | nil => rfl
  | cons arm rest ih => simp [postorderArms, postorderList_eq, ih]

end Expr

/-- The expressions of a form, with the reference of a trait declaration. -/
def Form.parts : Form → List Expr
  | .function definition => definition.body
  | .constant _ _ value => [value]
  | .dataVar _ _ _ initial => [initial]
  | .fungible _ _ supply => supply.toList
  | .useTrait _ _ reference => [reference]
  | .implTrait _ reference => [reference]
  | _ => []

def Form.postorder (form : Form) : List Node :=
  Expr.postorderList form.parts ++ [.form form]

def Contract.postorder (contract : Contract) : List Node :=
  contract.body.flatMap Form.postorder ++ [.contract contract]

namespace Node

variable {node part root : Node}

/-- The nodes right below a node, in source order: its children, and the reference of a trait
declaration. -/
def parts : Node → List Node
  | .form top => top.parts.map .expr
  | node => node.children

def postorder : Node → List Node
  | .contract whole => whole.postorder
  | .form top => top.postorder
  | .expr e => e.postorder
  | .binding b => b.value.postorder ++ [.binding b]
  | .arm a => a.pattern.postorder ++ a.body.flatMap Expr.postorder ++ [.arm a]
  | .pattern p => p.postorder
  | .field f => f.value.postorder ++ [.field f]

/-- That a node stands in a tree, at its root or in the tree of a part. -/
inductive Within : Node → Node → Prop where
  | root (node : Node) : Within node node
  | inPart {root part node : Node} (hpart : part ∈ root.parts) (hnode : Within part node) :
      Within root node

attribute [local simp] postorder parts children Expr.postorder flatMap_map in
/-- In post-order a node stands behind the trees of its parts, which keep their order. -/
theorem postorder_eq (node : Node) : node.postorder = node.parts.flatMap postorder ++ [node] := by
  cases node with
  | contract contract => simp [Contract.postorder]
  | form form => simp [Form.postorder, Expr.postorderList_eq]
  | binding entry => simp
  | field entry => simp
  | arm arm => simp
  | pattern pattern =>
      rcases pattern with ⟨_, _, _ | inner⟩ | _ | _ | _ <;>
        simp [Pattern.postorder]
  | expr expr =>
      cases expr with
      | conditional info condition yes no =>
          cases no <;> simp
      | _ =>
          simp [Expr.postorderList_eq, Expr.postorderNamed_eq, Expr.postorderArms_eq]

theorem postorder_sublist_of_mem (h : part ∈ node.parts) :
    part.postorder.Sublist (node.parts.flatMap postorder) := by
  simpa using (singleton_sublist.mpr h).flatMap postorder

theorem length_postorder_lt (h : part ∈ node.parts) :
    part.postorder.length < node.postorder.length := by
  have hle := (postorder_sublist_of_mem h).length_le
  rw [postorder_eq node, length_append]
  exact Nat.lt_succ_of_le hle

theorem Within.postorder_sublist (h : root.Within node) :
    node.postorder.Sublist root.postorder := by
  induction h with
  | root node => exact .refl _
  | @inPart root part node hpart _ ih =>
      rw [postorder_eq root]
      exact (ih.trans (postorder_sublist_of_mem hpart)).trans (sublist_append_left _ _)

theorem self_mem_postorder (node : Node) : node ∈ node.postorder := by
  rw [postorder_eq]
  exact mem_append_right _ (mem_singleton.mpr rfl)

theorem parts_sublist (node : Node) : (node.parts ++ [node]).Sublist node.postorder := by
  have hparts : node.parts.Sublist (node.parts.flatMap postorder) := by
    simpa using List.Sublist.flatMap_right node.parts (f := ([·])) (g := postorder)
      fun part _ => singleton_sublist.mpr part.self_mem_postorder
  rw [postorder_eq]
  exact hparts.append (.refl _)

/-- The post-order lists the nodes of the tree and no others. -/
theorem mem_postorder : node ∈ root.postorder ↔ root.Within node := by
  constructor
  · intro h
    induction hlength : root.postorder.length using Nat.strongRecOn generalizing root with
    | ind length ih =>
        rw [postorder_eq, mem_append, mem_flatMap, mem_singleton] at h
        obtain ⟨part, hpart, hmem⟩ | rfl := h
        · exact .inPart hpart (ih _ (hlength ▸ length_postorder_lt hpart) hmem rfl)
        · exact .root node
  · intro h
    exact h.postorder_sublist.subset node.self_mem_postorder

theorem map_id_filterMap_sublist {β : Type} {part? : Node → Option β} {id : β → Nat}
    (hid : ∀ node found, part? node = some found → id found = node.info.id) (nodes : List Node) :
    ((nodes.filterMap part?).map id).Sublist (nodes.map (·.info.id)) := by
  induction nodes with
  | nil => exact .refl _
  | cons node rest ih =>
      cases hnode : part? node with
      | none =>
          rw [filterMap_cons_none hnode, map_cons]
          exact ih.cons _
      | some found =>
          rw [filterMap_cons_some hnode, map_cons, map_cons, hid _ _ hnode]
          exact ih.cons_cons _

end Node

end ContractAudit
