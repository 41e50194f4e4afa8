import ContractAudit.Proofs.Assessment.Filtering
import ContractAudit.Proofs.Semantic.Calls

/-!
# Sites of calls

Two checkers report single calls, and two of the general issues count calls of the same functions in
the whole contract. `site_checkers_report_calls` says which calls those are, that each is reported
once and in the order of the text, and how the counts come about. The order is that of the parser: a
call takes its place from its first token, which is read before the tokens of its arguments
(`Grown.callsIn_sublist`), and the tokens of a text stand one behind the other.
-/

namespace ContractAudit

open Parse Checker List UnsafeOperation GeneralIssue

variable {call : NodeInfo × String × List Expr} {node : Node} {result : ParseResult}
  {names : List String} {source : String} (config : Config) (semantic : SemanticResult)

/-! ## The order of calls -/

theorem Node.call?_eq_some :
    node.call? = some call ↔ node = .expr (.call call.1 call.2.1 call.2.2) := by
  unfold call?
  split
  · simp [Prod.ext_iff, eq_comm]
  · next hother =>
    refine iff_of_false nofun ?_
    rintro rfl
    exact hother _ _ _ rfl

def callsIn (nodes : List Node) : List (NodeInfo × String × List Expr) :=
  (nodes.flatMap Node.walk).filterMap Node.call?

theorem callsIn_append (first second : List Node) :
    callsIn (first ++ second) = callsIn first ++ callsIn second := by
  simp [callsIn]

theorem callsIn_singleton (node : Node) :
    callsIn [node] = node.call?.toList ++ callsIn node.children := by
  rw [callsIn, flatMap_singleton, Node.walk_eq]
  cases hcall : node.call? with
  | none =>
      rw [filterMap_cons_none hcall]
      rfl
  | some call =>
      rw [filterMap_cons_some hcall]
      rfl

theorem callsIn_of_none (h : node.call? = none) : callsIn [node] = callsIn node.children := by
  rw [callsIn_singleton, h]
  rfl

theorem callsIn_mono {nodes all : List Node} (h : nodes.Sublist all) :
    (callsIn nodes).Sublist (callsIn all) :=
  (h.flatMap _).filterMap _

theorem Node.children_sublist (node : Node) : node.children.Sublist node.parts := by
  cases node with
  | form top => exact top.children_sublist.map _
  | _ => exact .refl _

/-- The calls of the trees that are read between two states start where some of the tokens read in
between do, in the same order. -/
theorem Grown.callsIn_sublist {levels : Nat} {s s' : State} {row : List Node}
    (h : Grown levels s s' row) : ∃ used, s.ahead = used ++ s'.ahead ∧
      ((callsIn row).map (·.1.span.start)).Sublist (used.map Token.location) := by
  induction h with
  | none honward _ =>
      obtain ⟨used, hused⟩ := honward.ahead
      exact ⟨used, hused.symm, nil_sublist _⟩
  | append _ _ ih ih' =>
      obtain ⟨used, hahead, hplaces⟩ := ih
      obtain ⟨used', hahead', hplaces'⟩ := ih'
      refine ⟨used ++ used', by rw [hahead, hahead', append_assoc], ?_⟩
      rw [callsIn_append, map_append, map_append]
      exact hplaces.append hplaces'
  | @node _ _ s s₁ s' node _ _ _ hinfo hhead _ ih ih' =>
      obtain ⟨used₀, hahead₀, _⟩ := ih
      obtain ⟨used, hahead, hplaces⟩ := ih'
      have hchildren := ((callsIn_mono node.children_sublist).map _).trans hplaces
      refine ⟨used₀ ++ used, by rw [hahead₀, hahead, append_assoc], ?_⟩
      rw [map_append]
      cases hcall : node.call? with
      | none =>
          rw [callsIn_of_none hcall]
          exact hchildren.trans (sublist_append_right _ _)
      | some call =>
          -- A call has read its own first token before its parts.
          obtain rfl := Node.call?_eq_some.mp hcall
          obtain ⟨hsome, honward⟩ := hhead.resolve_left nofun
          obtain ⟨token, rest, hcons⟩ := exists_cons_of_ne_nil hsome
          obtain ⟨used₁, hused₁⟩ := honward.ahead
          obtain rfl : used₀ = token :: used₁ := by
            refine append_cancel_right (hahead₀.symm.trans ?_)
            rw [hcons, cons_append, hused₁, State.advance_eq hcons]
          have hstart : call.1.span.start = token.location := by
            rw [← State.current_eq hcons]
            exact congrArg (·.span.start) hinfo
          rw [callsIn_singleton]
          show (call.1.span.start :: _).Sublist (token.location :: _)
          rw [hstart]
          exact (hchildren.trans (sublist_append_right _ _)).cons_cons _
  | @placeholder _ s location _ =>
      have hnone :
        callsIn [.expr (.identifier ⟨.point location, s.nextId⟩ Parse.placeholder)] = [] :=
        callsIn_of_none rfl
      exact ⟨[], rfl, hnone ▸ .refl _⟩
  | @absent _ s _ row _ _ ih =>
      obtain ⟨used, hahead, hplaces⟩ := ih
      refine ⟨used, hahead, ?_⟩
      have hskip := callsIn_append [.pattern (.none ⟨.point s.current.location, s.nextId⟩)] row
      exact hskip ▸ hplaces

theorem callsIn_forms (forms : List Form) :
    callsIn (forms.map .form) = callsIn ((forms.flatMap Form.children).map .expr) := by
  induction forms with
  | nil => rfl
  | cons form rest ih =>
      have hform : callsIn [.form form] = callsIn (form.children.map .expr) := callsIn_of_none rfl
      rw [map_cons, ← singleton_append, callsIn_append, hform, ih, flatMap_cons,
        map_append, callsIn_append]

theorem calls_inOrder (h : parse source = .ok result) :
    ((callsIn (result.contract.body.map .form)).map (·.1.span.start.offset)).Pairwise (· < ·) := by
  obtain ⟨state, hrun, _⟩ := parseTokens_eq_ok.mp h
  obtain ⟨s₁, hgrown, _, _⟩ := Parser.contract_grown hrun
  obtain ⟨used, hahead, hplaces⟩ := hgrown.callsIn_sublist
  rw [ofTokens_tokenize_ahead] at hahead
  have hused : used.Sublist (tokenize source) := by
    refine .trans ?_ (dropLast_sublist _)
    rw [hahead]
    exact sublist_append_left _ _
  have hoffsets := (hplaces.trans (hused.map _)).map Location.offset
  rw [map_map, map_map] at hoffsets
  exact (pairwise_map.mpr (tokenize_increasing source)).sublist hoffsets

/-! ## Listings of calls -/

theorem Node.mem_walk_expr {expr : Expr} :
    node ∈ (Node.expr expr).walk ↔ (Node.expr expr).Within node := by
  rw [(walk_perm_postorder rfl).mem_iff, mem_postorder]

theorem Checker.callsNamed_eq (body : List Expr) (names : List String) : callsNamed body names =
      (callsIn (body.map .expr)).filter fun call => names.contains call.2.1 := by
  rw [callsNamed, callsIn, flatMap_map, walkBody]

theorem Checker.mem_callsNamed {body : List Expr} {info : NodeInfo} {callee : String}
    {args : List Expr} : (info, callee, args) ∈ callsNamed body names ↔
      CallWithin body info callee args ∧ callee ∈ names := by
  rw [callsNamed, mem_filter, contains_iff_mem, mem_filterMap]
  refine and_congr_left fun _ => ?_
  simp only [Node.call?_eq_some, exists_eq_right, walkBody, mem_flatMap, Node.mem_walk_expr]
  rfl

/-- A list holds the calls of some functions in some expressions, each once and in the order of the
text. -/
structure ListsCalls (exprs : List Expr) (callees : List String)
    (calls : List (NodeInfo × String × List Expr)) : Prop where
  exact : ∀ info callee args, (info, callee, args) ∈ calls ↔
    CallWithin exprs info callee args ∧ callee ∈ callees
  once : calls.Nodup
  inOrder : (calls.map (·.1.span.start.offset)).Pairwise (· < ·)

def Contract.bodies (contract : Contract) : List Expr :=
  contract.functions.flatMap FunctionDef.body

def Form.values : Form → List Expr
  | .function _ => []
  | form => form.children

def Contract.values (contract : Contract) : List Expr :=
  contract.body.flatMap Form.values

theorem Form.children_eq (form : Form) :
    form.children = form.function?.toList.flatMap FunctionDef.body ++ form.values := by
  cases form <;> simp [children, values, function?]

section Contracts

variable (contract : Contract)

theorem Contract.bodies_eq : contract.bodies =
    contract.body.flatMap fun form => form.function?.toList.flatMap FunctionDef.body := by
  rw [bodies, functions, filterMap_eq_flatMap_toList, flatMap_assoc]

theorem Contract.bodies_sublist :
    contract.bodies.Sublist (contract.body.flatMap Form.children) := by
  rw [bodies_eq]
  refine List.Sublist.flatMap_right _ fun form _ => ?_
  rw [form.children_eq]
  exact sublist_append_left _ _

theorem Contract.values_sublist :
    contract.values.Sublist (contract.body.flatMap Form.children) := by
  refine List.Sublist.flatMap_right _ fun form _ => ?_
  rw [form.children_eq]
  exact sublist_append_right _ _

theorem countP_calls (p : NodeInfo × String × List Expr → Bool) :
    ((Node.contract contract).walk.filterMap Node.call?).countP p =
      (callsIn (contract.bodies.map .expr)).countP p +
        (callsIn (contract.values.map .expr)).countP p := by
  have hperm : (contract.body.flatMap Form.children).Perm (contract.bodies ++ contract.values) := by
    rw [contract.bodies_eq, funext Form.children_eq]
    exact (flatMap_append_perm _ _ _).symm
  have hcalls : (Node.contract contract).walk.filterMap Node.call? =
      callsIn (contract.body.map .form) := by
    rw [← flatMap_singleton Node.walk (.contract contract)]
    exact callsIn_of_none rfl
  rw [hcalls, callsIn_forms, ← countP_append, ← callsIn_append, ← map_append]
  exact (((hperm.map _).flatMap_right _).filterMap _).countP_eq _

end Contracts

theorem listsCalls_callsNamed (h : parse source = .ok result) {exprs : List Expr}
    (hexprs : exprs.Sublist (result.contract.body.flatMap Form.children)) (callees : List String) :
    ListsCalls exprs callees (callsNamed exprs callees) := by
  have hinOrder : ((callsNamed exprs callees).map (·.1.span.start.offset)).Pairwise (· < ·) := by
    refine (calls_inOrder h).sublist (.map _ ?_)
    rw [callsNamed_eq, callsIn_forms]
    exact filter_sublist.trans (callsIn_mono (hexprs.map _))
  refine ⟨fun info callee args => mem_callsNamed, ?_, hinOrder⟩
  exact .of_map _ (hinOrder.imp fun hlt => Int.ne_of_lt hlt)

/-! ## Findings -/

section Findings

variable {checker : Checker} {audited : Audited} {callees : List String}
  {finding : NodeInfo × String × List Expr → Finding}

theorem Checker.run_calls (hsilent : audited.suppressions = .none)
    (hsearch : checker.search audited = .ok (audited.functions.flatMap fun f =>
      (callsNamed f.body callees).map finding)) :
    checker.run audited = (callsNamed audited.semantic.contract.bodies callees).map fun call =>
      checker.issue (finding call) := by
  have hcalls : callsNamed audited.semantic.contract.bodies callees =
      audited.functions.flatMap fun f => callsNamed f.body callees := by
    rw [callsNamed, walkBody, Contract.bodies, flatMap_assoc, filterMap_flatMap, filter_flatMap]
    rfl
  rw [run_of_unsilenced hsearch hsilent, hcalls, map_flatMap, map_flatMap]
  simp only [map_map]
  rfl

end Findings

def Counts (issues : List Issue) (code : Code) (what : String) (count : Nat) : Prop :=
  (issues.filter (·.code = code.label)).map Issue.message =
    if count = 0 then [] else [s!"Found {count}{what}"]

theorem location_unsafeFinding (call : NodeInfo × String × List Expr) :
    (finding call).location = some call.1.span.start := by
  unfold finding
  split <;> rfl

theorem message_unsafeFinding (h : call.2.1 ∈ operations) :
    (finding call).message = "Unsafe operation: division" ↔ call.2.1 = "/" := by
  obtain ⟨info, callee, args⟩ := call
  simp only [operations, mem_cons, not_mem_nil, or_false] at h
  rcases h with rfl | rfl | rfl
  · exact iff_of_false (show "Unsafe operation: " ++ "unwrap!" ≠ _ by decide) (by simp)
  · exact iff_of_false (show "Unsafe operation: " ++ "unwrap-panic" ≠ _ by decide) (by simp)
  · exact iff_of_true rfl rfl

theorem countP_unsafe (contract : Contract) {p : Issue → Bool} (hnames : names ⊆ operations)
    (hp : ∀ call, call.2.1 ∈ operations →
      (p (unsafeOperation.issue (finding call)) = true ↔ call.2.1 ∈ names)) :
    ((callsNamed contract.bodies operations).map fun call =>
        unsafeOperation.issue (finding call)).countP p +
      (callsNamed contract.values names).length =
        ((Node.contract contract).walk.filterMap Node.call?).countP (names.contains ·.2.1) := by
  rw [countP_calls, callsNamed_eq, callsNamed_eq, countP_map, countP_filter,
    ← countP_eq_length_filter]
  refine congrArg (· + _) (countP_congr fun call _ => ?_)
  rw [Bool.and_eq_true, contains_iff_mem, contains_iff_mem, Function.comp_apply]
  exact ⟨fun h => (hp call h.2).mp h.1, fun h => ⟨(hp call (hnames h)).mpr h, hnames h⟩⟩

theorem counts_unwraps : Counts (generalIssues config semantic) .unsafeUnwrap
      " usage(s) of unwrap! or unwrap-panic, which can lead to runtime errors"
      (callCount semantic.contract "unwrap!" +
        callCount semantic.contract "unwrap-panic") := by
  have hissues : (generalIssues config semantic).filter (·.code = Code.unsafeUnwrap.label) =
      unwraps semantic.contract :=
    (filter_generalIssues config semantic _).trans (by simp [Code.label])
  rw [Counts, hissues, unwraps]
  split <;> rfl

theorem counts_divisions : Counts (generalIssues config semantic) .potentialDivisionByZero
      " division operation(s). Ensure divisors cannot be zero"
      (callCount semantic.contract "/") := by
  have hissues : (generalIssues config semantic).filter
      (·.code = Code.potentialDivisionByZero.label) = divisions semantic.contract :=
    (filter_generalIssues config semantic _).trans (by simp [Code.label])
  rw [Counts, hissues, divisions]
  split <;> rfl

theorem countP_pair {first second : String} (h : first ≠ second)
    (calls : List (NodeInfo × String × List Expr)) :
    calls.countP (fun call => call.2.1 = first) + calls.countP (fun call => call.2.1 = second) =
      calls.countP fun call => [first, second].contains call.2.1 := by
  induction calls with
  | nil => rfl
  | cons call rest ih => grind

/-- The checkers that look at single calls report each call of their functions in a body of a
function, once, at its place and in the order of the text. The general issues about unwrapping and
division count the same calls, and those that stand outside of functions. -/
theorem site_checkers_report_calls {source : String} {result : ParseResult} {audited : Audited}
    (hparse : parse source = .ok result)
    (hsemantic : audited.semantic = analyzeContract result.contract)
    (hsilent : audited.suppressions = .none) :
    (∃ calls, ListsCalls result.contract.bodies ["+", "-", "*"] calls ∧
      overflow.run audited = calls.map (fun call => overflow.issue (Overflow.finding call)) ∧
      (overflow.run audited).map Issue.location = calls.map fun call => some call.1.span.start) ∧
    (∃ calls, ListsCalls result.contract.bodies ["unwrap!", "unwrap-panic", "/"] calls ∧
      unsafeOperation.run audited =
        calls.map (fun call => unsafeOperation.issue (UnsafeOperation.finding call)) ∧
      (unsafeOperation.run audited).map Issue.location =
        calls.map fun call => some call.1.span.start) ∧
    (∃ outside, ListsCalls result.contract.values ["unwrap!", "unwrap-panic"] outside ∧
      Counts (generalIssues audited.config audited.semantic) .unsafeUnwrap
        " usage(s) of unwrap! or unwrap-panic, which can lead to runtime errors"
        ((unsafeOperation.run audited).countP (·.message ≠ "Unsafe operation: division") +
          outside.length)) ∧
    ∃ outside, ListsCalls result.contract.values ["/"] outside ∧
      Counts (generalIssues audited.config audited.semantic) .potentialDivisionByZero
        " division operation(s). Ensure divisors cannot be zero"
        ((unsafeOperation.run audited).countP (·.message = "Unsafe operation: division") +
          outside.length) := by
  have hcontract : audited.semantic.contract = result.contract := by
    rw [hsemantic]
    rfl
  have hoverflow := @run_calls overflow audited _ _ hsilent rfl
  have hunwrap := @run_calls unsafeOperation audited _ _ hsilent rfl
  rw [hcontract] at hoverflow hunwrap
  have hbodies := listsCalls_callsNamed hparse result.contract.bodies_sublist
  have hvalues := listsCalls_callsNamed hparse result.contract.values_sublist
  refine ⟨⟨_, hbodies _, hoverflow, ?_⟩, ⟨_, hbodies _, hunwrap, ?_⟩, ⟨_, hvalues _, ?_⟩,
    ⟨_, hvalues _, ?_⟩⟩
  · rw [hoverflow, map_map]
    rfl
  · rw [hunwrap, map_map]
    exact map_congr_left fun call _ => location_unsafeFinding call
  · rw [hunwrap, countP_unsafe result.contract (by decide), ← countP_pair (by decide), ← hcontract]
    · exact counts_unwraps audited.config audited.semantic
    · intro call hcall
      rw [decide_eq_true_eq, ne_eq]
      refine (not_congr (message_unsafeFinding hcall)).trans ?_
      simp only [UnsafeOperation.operations, mem_cons, not_mem_nil, or_false] at hcall ⊢
      grind
  · rw [hunwrap, countP_unsafe result.contract (by decide)]
    · rw [← hcontract]
      simpa [GeneralIssue.callCount] using counts_divisions audited.config audited.semantic
    · intro call hcall
      rw [decide_eq_true_eq, mem_singleton]
      exact message_unsafeFinding hcall

def arithmetic : String :=
  "(define-constant one (unwrap-panic (some u1))) (define-data-var total uint (/ u4 u2)) " ++
    "(define-read-only (sum (a uint)) (+ (* a u2) (- (unwrap! (g a) (err u1)) one)))"

theorem site_checkers_report_calls_arithmetic : ∃ result, parse arithmetic = .ok result ∧
      (∃ calls, ListsCalls result.contract.bodies ["+", "-", "*"] calls ∧
        calls.map (fun call => some call.1.span.start) =
          [some ⟨1, 120, 119⟩, some ⟨1, 123, 122⟩, some ⟨1, 132, 131⟩]) ∧
      ∃ outside, ListsCalls result.contract.values ["unwrap!", "unwrap-panic"] outside ∧
        Counts (generalIssues .default (analyzeContract result.contract)) .unsafeUnwrap
          " usage(s) of unwrap! or unwrap-panic, which can lead to runtime errors"
          (1 + outside.length) := by
  obtain ⟨result, hparse, hsums, hunwraps⟩ : ∃ result, parse arithmetic = .ok result ∧
      (overflow.run ⟨analyzeContract result.contract, .empty, .default, .none⟩).map
          Issue.location =
        [some ⟨1, 120, 119⟩, some ⟨1, 123, 122⟩, some ⟨1, 132, 131⟩] ∧
      (unsafeOperation.run ⟨analyzeContract result.contract, .empty, .default, .none⟩).countP
        (·.message ≠ "Unsafe operation: division") = 1 :=
    exists_parse (append_eq_ofList rfl rfl) (by decide +kernel)
  obtain ⟨⟨calls, hcalls, _, hplaces⟩, _, ⟨outside, houtside, hcounts⟩, _⟩ :=
    @site_checkers_report_calls _ result ⟨analyzeContract result.contract, .empty, .default, .none⟩
      hparse rfl rfl
  rw [hunwraps] at hcounts
  exact ⟨result, hparse, ⟨calls, hcalls, hplaces.symm.trans hsums⟩, outside, houtside, hcounts⟩

end ContractAudit
