import ContractAudit.Proofs.Syntax.Postorder
import ContractAudit.Semantic.Facts
import Mathlib.Algebra.GroupWithZero.Nat
import Mathlib.Data.List.Perm.Basic

/-!
# Nodes in pre-order

`Node.walk` lists a tree with a stack. `Node.walk_eq` is the law of the order: a node stands before
the trees of its children, which keep their order. Inside an expression a walk has the same nodes as
the post-order, and the calls that it meets are those that `Expr.calls` collects by recursion on the
expression.
-/

namespace ContractAudit

open List

variable {node : Node} (first second : List Node)

/-! ## The order -/

namespace Node

variable {site : Facts.CallSite}

def nodeCounts (nodes : List Node) : Nat :=
  (nodes.map nodeCount).sum

@[simp]
theorem nodeCounts_cons (node : Node) (rest : List Node) :
    nodeCounts (node :: rest) = node.nodeCount + nodeCounts rest := by
  simp [nodeCounts]

@[simp]
theorem nodeCounts_append :
    nodeCounts (first ++ second) = nodeCounts first + nodeCounts second := by
  simp [nodeCounts]

theorem nodeCounts_exprs (exprs : List Expr) :
    nodeCounts (exprs.map .expr) = Expr.nodeCounts exprs := by
  induction exprs with
  | nil => rfl
  | cons e rest ih => simp [Expr.nodeCounts, nodeCount, ih]

theorem nodeCounts_named {node : Named Expr → Node}
    (hnode : ∀ entry, (node entry).nodeCount = 1 + entry.value.nodeCount)
    (named : List (Named Expr)) : nodeCounts (named.map node) = Expr.namedNodeCounts named := by
  induction named with
  | nil => rfl
  | cons entry rest ih => simp [Expr.namedNodeCounts, hnode, ih]

theorem nodeCounts_arms (arms : List (Arm Expr)) :
    nodeCounts (arms.map .arm) = Expr.armNodeCounts arms := by
  induction arms with
  | nil => rfl
  | cons a rest ih =>
      simp [Expr.armNodeCounts, nodeCount, ih]

theorem nodeCounts_forms (body : List Form) :
    body.foldr (fun top count => top.nodeCount + count) 1 = nodeCounts (body.map .form) + 1 := by
  induction body with
  | nil => rfl
  | cons top rest ih => rw [foldr_cons, ih, map_cons, nodeCounts_cons, nodeCount, Nat.add_assoc]

attribute [local simp] nodeCount children Expr.nodeCount in
theorem nodeCount_eq (node : Node) : node.nodeCount = nodeCounts node.children + 1 := by
  cases node with
  | contract whole => exact nodeCounts_forms whole.body
  | form top => simp [Form.nodeCount, nodeCounts_exprs, Nat.add_comm]
  | binding b => simp [nodeCounts, Nat.add_comm]
  | field f => simp [nodeCounts, Nat.add_comm]
  | arm a =>
      simp only [nodeCount, children, Expr.armNodeCounts, nodeCounts_cons, nodeCounts_exprs]
      omega
  | pattern p =>
      rcases p with ⟨_, _, _ | inner⟩ | _ | _ | _ <;>
        simp [Pattern.nodeCount, nodeCounts, Nat.add_comm]
  | expr e =>
      have hbindings (bindings : List (Named Expr)) :
          nodeCounts (bindings.map .binding) = Expr.namedNodeCounts bindings :=
        nodeCounts_named (fun _ => rfl) bindings
      have hfields (fields : List (Named Expr)) :
          nodeCounts (fields.map .field) = Expr.namedNodeCounts fields :=
        nodeCounts_named (fun _ => rfl) fields
      cases e with
      | conditional info condition yes no =>
          cases no <;> simp [nodeCounts] <;> omega
      | literal | identifier => rfl
      | _ =>
          simp only [nodeCount, Expr.nodeCount, children, nodeCounts_cons, nodeCounts_append,
            nodeCounts_exprs, nodeCounts_arms, hbindings, hfields]
          omega

/-- A walk of a stack lists the trees on top of it before the others. -/
theorem visit_append {steps : Nat} {top : List Node} (hsteps : nodeCounts top ≤ steps)
    (below : List Node) :
    visit steps (top ++ below) =
      visit (nodeCounts top) top ++ visit (steps - nodeCounts top) below := by
  induction steps generalizing top with
  | zero =>
      cases top with
      | nil => rfl
      | cons node rest =>
          rw [nodeCounts_cons, nodeCount_eq] at hsteps
          omega
  | succ steps ih =>
      cases top with
      | nil => rfl
      | cons node rest =>
          -- After a step the children of the node stand on top of the stack.
          have hcounts : nodeCounts (node :: rest) = nodeCounts (node.children ++ rest) + 1 := by
            rw [nodeCounts_cons, nodeCount_eq, nodeCounts_append]
            omega
          rw [hcounts] at hsteps ⊢
          rw [cons_append, visit, visit, ← append_assoc, ih (by omega),
            Nat.add_sub_add_right, cons_append]

theorem visit_nodeCounts (nodes : List Node) :
    visit (nodeCounts nodes) nodes = nodes.flatMap walk := by
  induction nodes with
  | nil => rfl
  | cons node rest ih =>
      have hnode : nodeCounts [node] = node.nodeCount := by simp [nodeCounts]
      have hsteps : nodeCounts [node] ≤ nodeCounts (node :: rest) := by
        rw [hnode, nodeCounts_cons]
        omega
      calc visit (nodeCounts (node :: rest)) ([node] ++ rest)
        _ = visit (nodeCounts [node]) [node] ++
              visit (nodeCounts (node :: rest) - nodeCounts [node]) rest := visit_append hsteps rest
        _ = node.walk ++ rest.flatMap walk := by
              rw [hnode, nodeCounts_cons, Nat.add_sub_cancel_left, ih, walk]

/-- In pre-order a node stands before the trees of its children. -/
theorem walk_eq (node : Node) : node.walk = node :: node.children.flatMap walk := by
  rw [walk, nodeCount_eq, visit, append_nil, visit_nodeCounts]

theorem visit_of_le {steps : Nat} {nodes : List Node} (hsteps : nodeCounts nodes ≤ steps) :
    visit steps nodes = nodes.flatMap walk := by
  have hempty : visit (steps - nodeCounts nodes) [] = [] := by
    cases steps - nodeCounts nodes <;> rfl
  have happend := visit_append hsteps []
  rwa [append_nil, hempty, append_nil, visit_nodeCounts] at happend

/-- The walk with a stack ends after one round for each node and lists a tree in pre-order: the
node, then the walks of its children. A row of trees is listed tree by tree, so that all of an
earlier tree stands before all of a later one. -/
theorem walk_preorder (node : Node) (nodes : List Node) :
    (node.walk = node :: node.children.flatMap walk ∧
      ∀ spare, visit (node.nodeCount + spare) [node] = node.walk) ∧
    (∀ spare, visit (nodeCounts nodes + spare) nodes = nodes.flatMap walk) ∧
    (∀ body, walkBody body = (body.map expr).flatMap walk) ∧
    ∀ front earlier between later back,
      (front ++ earlier :: between ++ later :: back).flatMap walk =
        front.flatMap walk ++ earlier.walk ++ between.flatMap walk ++ later.walk ++
          back.flatMap walk := by
  refine ⟨⟨walk_eq node, fun spare => ?_⟩, fun spare => ?_, fun body => ?_, fun _ _ _ _ _ => ?_⟩
  · have hcount : nodeCounts [node] = node.nodeCount := by simp [nodeCounts]
    rw [← hcount, visit_of_le (Nat.le_add_right _ _), flatMap_singleton]
  · exact visit_of_le (Nat.le_add_right _ _)
  · rw [walkBody, flatMap_map]
  · simp [flatMap_append]

/-! ## The nodes of an expression -/

def isInner : Node → Bool
  | .contract _ | .form _ => false
  | _ => true

theorem parts_of_isInner (h : node.isInner = true) : node.parts = node.children := by
  cases node <;> first | rfl | cases h

theorem isInner_of_mem_parts {part : Node} (h : node.isInner = true) (hpart : part ∈ node.parts) :
    part.isInner = true := by
  have hall : node.children.all isInner = true := by
    cases node with
    | contract | form => cases h
    | expr e => cases e <;> simp [children, isInner]
    | pattern p => cases p <;> simp [children, isInner]
    | _ => simp [children, isInner]
  rw [parts_of_isInner h] at hpart
  exact all_eq_true.mp hall part hpart

/-- Inside a form a walk lists the same nodes as the post-order. -/
theorem walk_perm_postorder (h : node.isInner = true) : node.walk.Perm node.postorder := by
  induction hlength : node.postorder.length using Nat.strongRecOn generalizing node with
  | ind length ih =>
      have hparts : (node.parts.flatMap walk).Perm (node.parts.flatMap postorder) := by
        refine List.Perm.flatMap_left _ fun part hpart => ?_
        exact ih _ (hlength ▸ length_postorder_lt hpart) (isInner_of_mem_parts h hpart) rfl
      rw [walk_eq, postorder_eq, ← parts_of_isInner h]
      exact (hparts.cons node).trans (perm_append_singleton _ _).symm

end Node

/-! ## Calls -/

namespace Expr

open Facts

mutual

/-- The calls in an expression, a call before those in its arguments, with what each callee and its
arguments tell. -/
def calls : Expr → List CallSite
  | .literal _ _ => []
  | .identifier _ _ => []
  | .call info callee args => ⟨info, args, .ofCall callee args⟩ :: callsList args
  | .letIn _ bindings body => callsNamed bindings ++ callsList body
  | .block _ body => callsList body
  | .conditional _ condition yes none => condition.calls ++ yes.calls
  | .conditional _ condition yes (some no) => condition.calls ++ yes.calls ++ no.calls
  | .matchOn _ subject arms => subject.calls ++ callsArms arms
  | .list _ elements => callsList elements
  | .tuple _ fields => callsNamed fields

def callsList : List Expr → List CallSite
  | [] => []
  | expr :: rest => expr.calls ++ callsList rest

def callsNamed : List (Named Expr) → List CallSite
  | [] => []
  | ⟨_, _, value⟩ :: rest => value.calls ++ callsNamed rest

def callsArms : List (Arm Expr) → List CallSite
  | [] => []
  | ⟨_, _, body⟩ :: rest => callsList body ++ callsArms rest

end

end Expr

def Node.callSite? : Node → Option Facts.CallSite
  | .expr (.call info callee args) => some ⟨info, args, .ofCall callee args⟩
  | _ => none

theorem Node.callSite?_eq_some : node.callSite? = some site ↔ ∃ info callee args,
      node = .expr (.call info callee args) ∧ site = ⟨info, args, .ofCall callee args⟩ := by
  constructor
  · intro h
    unfold callSite? at h
    split at h <;> cases h
    exact ⟨_, _, _, rfl, rfl⟩
  · rintro ⟨info, callee, args, rfl, rfl⟩
    rfl

theorem Node.id_of_callSite? (h : node.callSite? = some site) : site.node.id = node.info.id := by
  obtain ⟨info, callee, args, rfl, rfl⟩ := callSite?_eq_some.mp h
  rfl

def callSites (nodes : List Node) : List Facts.CallSite :=
  nodes.filterMap Node.callSite?

theorem callSites_append : callSites (first ++ second) = callSites first ++ callSites second :=
  filterMap_append

theorem callSites_cons (h : node.callSite? = none) (rest : List Node) :
    callSites (node :: rest) = callSites rest :=
  filterMap_cons_none h

namespace Expr

open Node (walk walk_eq)

variable (body : List Expr)

theorem callSites_pattern : (pattern : Pattern) → callSites (Node.pattern pattern).walk = []
  | .wrapper info kind (some inner) => by
      rw [walk_eq, callSites_cons rfl]
      simpa [Node.children] using callSites_pattern inner
  | .literal info literalInfo value => by rfl
  | .wrapper info kind none => by rfl
  | .none info => by rfl
  | .identifier info name => by rfl

mutual

theorem callSites_walk : (expr : Expr) → callSites (Node.expr expr).walk = expr.calls
  | .literal info value => by rfl
  | .identifier info name => by rfl
  | .call info callee args => by
      rw [walk_eq, calls, ← callSites_exprs args]
      rfl
  | .letIn info bindings body => by
      rw [walk_eq, calls, callSites_cons rfl, Node.children, flatMap_append,
        callSites_append, callSites_named (fun _ => rfl) (fun _ => rfl) bindings,
        callSites_exprs body]
  | .block info body => by
      rw [walk_eq, calls, callSites_cons rfl, Node.children, callSites_exprs body]
  | .conditional info condition yes none => by
      rw [walk_eq, calls, callSites_cons rfl]
      simp [Node.children, callSites_append, callSites_walk condition, callSites_walk yes]
  | .conditional info condition yes (some no) => by
      rw [walk_eq, calls, callSites_cons rfl]
      simp [Node.children, callSites_append, callSites_walk condition, callSites_walk yes,
        callSites_walk no]
  | .matchOn info subject arms => by
      rw [walk_eq, calls, callSites_cons rfl, Node.children, flatMap_cons,
        callSites_append, callSites_walk subject, callSites_arms arms]
  | .list info elements => by
      rw [walk_eq, calls, callSites_cons rfl, Node.children, callSites_exprs elements]
  | .tuple info fields => by
      rw [walk_eq, calls, callSites_cons rfl, Node.children,
        callSites_named (fun _ => rfl) (fun _ => rfl) fields]

theorem callSites_exprs : (exprs : List Expr) →
    callSites ((exprs.map .expr).flatMap walk) = callsList exprs
  | [] => rfl
  | expr :: rest => by
      rw [map_cons, flatMap_cons, callSites_append, callsList, callSites_walk expr,
        callSites_exprs rest]

theorem callSites_named {node : Named Expr → Node} (hsite : ∀ entry, (node entry).callSite? = none)
    (hchildren : ∀ entry, (node entry).children = [.expr entry.value]) :
    (named : List (Named Expr)) → callSites ((named.map node).flatMap walk) = callsNamed named
  | [] => rfl
  | ⟨info, name, value⟩ :: rest => by
      rw [map_cons, flatMap_cons, callSites_append, callsNamed, walk_eq,
        callSites_cons (hsite _), hchildren, flatMap_singleton,
        callSites_walk value, callSites_named hsite hchildren rest]

theorem callSites_arms : (arms : List (Arm Expr)) →
    callSites ((arms.map .arm).flatMap walk) = callsArms arms
  | [] => rfl
  | ⟨info, pattern, body⟩ :: rest => by
      rw [map_cons, flatMap_cons, callSites_append, callsArms, walk_eq,
        callSites_cons rfl, callSites_arms rest, Node.children, flatMap_cons,
        callSites_append, callSites_pattern pattern, callSites_exprs body, nil_append]

end

theorem callSites_walkBody : callSites (walkBody body) = callsList body := by
  rw [← callSites_exprs, flatMap_map]
  rfl

theorem walkBody_perm_postorderList : (walkBody body).Perm (postorderList body) := by
  rw [postorderList_eq]
  have hexpr (expr : Expr) : (Node.expr expr).walk.Perm expr.postorder :=
    Node.walk_perm_postorder rfl
  exact List.Perm.flatMap_left body fun expr _ => hexpr expr

theorem callsList_perm : (callsList body).Perm (callSites (postorderList body)) := by
  rw [← callSites_walkBody]
  exact (walkBody_perm_postorderList body).filterMap _

theorem mem_callsList {body : List Expr} :
    site ∈ callsList body ↔ ∃ expr ∈ body, ∃ info callee args,
      (Node.expr expr).Within (.expr (.call info callee args)) ∧
        site = ⟨info, args, .ofCall callee args⟩ := by
  rw [(callsList_perm body).mem_iff, postorderList_eq, callSites, mem_filterMap]
  constructor
  · rintro ⟨node, hnode, hsite⟩
    obtain ⟨expr, hexpr, hnode⟩ := mem_flatMap.mp hnode
    obtain ⟨info, callee, args, rfl, rfl⟩ := Node.callSite?_eq_some.mp hsite
    exact ⟨expr, hexpr, info, callee, args, Node.mem_postorder.mp hnode, rfl⟩
  · rintro ⟨expr, hexpr, info, callee, args, hnode, rfl⟩
    exact ⟨_, mem_flatMap.mpr ⟨expr, hexpr, Node.mem_postorder.mpr hnode⟩, rfl⟩

end Expr

end ContractAudit
