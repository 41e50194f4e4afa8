import ContractAudit.CallGraph.Render
import ContractAudit.Proofs.Token.Names
import Mathlib.Data.List.Basic
import Mathlib.Data.List.Induction

/-!
# Drawings of call graphs

A drawing declares a function under its quoted name, in which double quotes are escaped, and spells
the ends of an edge without escapes. `toDot_identifies`: the two spellings agree for names without
double quotes, and graphs of such names are drawn alike only if their names and edges are the same,
whatever the titles are.
-/

namespace ContractAudit.CallGraph

open List

variable {graph other : CallGraph} {title : String}

/-! ## Names -/

def quoted (name : String) : String :=
  "\"" ++ name ++ "\""

def dotId (name : String) : String :=
  quoted (escapeQuotes name)

def edges (graph : CallGraph) : List (String × String) :=
  graph.entries.flatMap fun (name, node) => node.calls.map (name, ·)

def dotEdge (edge : String × String) : String :=
  s!"  {quoted edge.1} -> {quoted edge.2};"

def dotHeader (title : String) : List String :=
  ["digraph CallGraph \x7b", "  rankdir=TB;"] ++
    (if title.isEmpty then [] else [s!"  label=\"{title}\";"]) ++
    ["  node [shape=box, fontname=\"Helvetica\", fontsize=10];"]

def Unquoted (graph : CallGraph) : Prop :=
  (∀ name ∈ graph.keys, '"' ∉ name.toList) ∧ ∀ edge ∈ graph.edges, '"' ∉ edge.2.toList

instance : Decidable graph.Unquoted :=
  inferInstanceAs (Decidable (_ ∧ _))

def escaped (text : List Char) : List Char :=
  text.flatMap fun c => if c = '"' then ['\\', '"'] else [c]

theorem escaped_cons (c : Char) (rest : List Char) :
    escaped (c :: rest) = (if c = '"' then ['\\', '"'] else [c]) ++ escaped rest :=
  rfl

theorem head?_escaped (text : List Char) : (escaped text).head? ≠ some '"' := by
  cases text with
  | nil => simp [escaped]
  | cons c rest =>
      rw [escaped_cons]
      split <;> simp_all

/-- A double quote shows that the backslash before it was added. -/
theorem escaped_injective : ∀ {text text' : List Char}, escaped text = escaped text' → text = text'
  | [], [], _ => rfl
  | [], c :: rest, h | c :: rest, [], h => by
      rw [escaped_cons] at h
      split at h <;> simp [escaped] at h
  | c :: rest, c' :: rest', h => by
      rw [escaped_cons, escaped_cons] at h
      by_cases hc : c = '"' <;> by_cases hc' : c' = '"' <;> simp only [hc, hc', ↓reduceIte] at h
      · rw [hc, hc', escaped_injective (append_cancel_left h)]
      · exact absurd (congrArg head? (cons.inj h).2).symm (head?_escaped rest')
      · exact absurd (congrArg head? (cons.inj h).2) (head?_escaped rest)
      · rw [(cons.inj h).1, escaped_injective (cons.inj h).2]

theorem escaped_eq_self_iff {text : List Char} : escaped text = text ↔ '"' ∉ text := by
  induction text with
  | nil => simp [escaped]
  | cons c rest ih =>
      rw [escaped_cons]
      by_cases hc : c = '"'
      · simp [hc]
      · simp [hc, ih, Ne.symm hc]

/-! ## Statements -/

/-- A statement of a drawing: two quoted texts, and what stands behind either of them. -/
structure Statement where
  first : List Char
  middle : List Char
  second : List Char
  last : List Char

def Statement.line (statement : Statement) : List Char :=
  "  \"".toList ++ statement.first ++ '"' :: statement.middle ++ '"' :: statement.second ++
    '"' :: statement.last

def declaration (name : String) (node : CallNode) : Statement :=
  ⟨(escapeQuotes name).toList, " [style=filled, fillcolor=".toList, (fillColor node).toList,
    "];".toList⟩

def edgeStatement (edge : String × String) : Statement :=
  ⟨edge.1.toList, " -> ".toList, edge.2.toList, ";".toList⟩

/-- What stands between the double quotes of some statements, which follow a text. -/
def pieces (start : List Char) : List Statement → List Char → List (List Char)
  | [], finish => [start ++ finish]
  | statement :: rest, finish =>
      (start ++ "\n  ".toList) :: statement.first :: statement.middle :: statement.second ::
        pieces statement.last rest finish

theorem pieces_concat (start : List Char) (statements : List Statement) (statement : Statement)
    (finish : List Char) :
    pieces start (statements ++ [statement]) finish = pieces start statements "\n  ".toList ++
      [statement.first, statement.middle, statement.second, statement.last ++ finish] := by
  induction statements generalizing start with
  | nil => rfl
  | cons _ rest ih => simp [pieces, ih]

/-- Read from its end, a drawing gives its statements one by one, whatever it starts with. -/
theorem statements_eq {start finish : List Char} {front front' : List (List Char)}
    {statements statements' : List Statement}
    (hstart : ∀ statement ∈ statements, statement.last ≠ start)
    (hstart' : ∀ statement ∈ statements', statement.last ≠ start)
    (h : front ++ pieces start statements finish = front' ++ pieces start statements' finish) :
    statements = statements' := by
  induction statements using reverseRecOn generalizing statements' finish with
  | nil =>
      cases statements' using reverseRecOn with
      | nil => rfl
      | append_singleton rest statement =>
          rw [pieces_concat] at h
          have hlast := congrArg getLast? h
          simp [pieces] at hlast
          exact absurd hlast.symm (hstart' statement (by simp))
  | append_singleton rest statement ih =>
      cases statements' using reverseRecOn with
      | nil =>
          rw [pieces_concat] at h
          have hlast := congrArg getLast? h
          simp [pieces] at hlast
          exact absurd hlast (hstart statement (by simp))
      | append_singleton rest' statement' =>
          rw [pieces_concat, pieces_concat, ← append_assoc, ← append_assoc] at h
          obtain ⟨hrest, hlast⟩ := append_inj' h rfl
          have hstatement : statement = statement' := by
            obtain ⟨⟩ := statement
            obtain ⟨⟩ := statement'
            simpa using hlast
          rw [hstatement, ih (fun _ h => hstart _ (mem_append_left _ h))
            (fun _ h => hstart' _ (mem_append_left _ h)) hrest]

theorem intercalate_pieces (start : List Char) (statements : List Statement) (finish : List Char) :
    ['"'].intercalate (pieces start statements finish) =
      start ++ statements.flatMap (fun statement => '\n' :: statement.line) ++ finish := by
  induction statements generalizing start with
  | nil => simp [pieces, intercalate]
  | cons statement rest ih =>
      cases hpieces : pieces statement.last rest finish with
      | nil => cases rest <;> cases hpieces
      | cons piece more =>
          rw [pieces, hpieces]
          simp only [intercalate_cons_cons]
          rw [← hpieces, ih]
          simp [Statement.line]

def statements (graph : CallGraph) : List Statement :=
  graph.entries.map (fun (name, node) => declaration name node) ++ graph.edges.map edgeStatement

theorem toList_dotNode (name : String) (node : CallNode) :
    (dotNode name node).toList = (declaration name node).line := by
  simp [dotNode, declaration, Statement.line, toString]

theorem toList_dotEdge (edge : String × String) :
    (dotEdge edge).toList = (edgeStatement edge).line := by
  simp [dotEdge, quoted, edgeStatement, Statement.line, toString]

theorem flatMap_dotEdges (graph : CallGraph) :
    graph.entries.flatMap (fun (name, node) => dotEdges name node) = graph.edges.map dotEdge := by
  have hedges (name : String) (node : CallNode) :
      dotEdges name node = node.calls.map fun callee => dotEdge (name, callee) := by
    refine map_congr_left fun callee _ => String.toList_inj.mp ?_
    simp [dotEdge, quoted, toString]
  simp [edges, map_flatMap, hedges, Function.comp_def]

theorem toList_toDot (title : String) : ∃ front, ∀ graph : CallGraph,
    (graph.toDot title).toList = front ++ '"' ::
      ['"'].intercalate (pieces ", fontsize=10];".toList graph.statements "\n\x7d".toList) := by
  refine ⟨"digraph CallGraph \x7b\n  rankdir=TB;".toList ++
    (if title.isEmpty then [] else '\n' :: s!"  label=\"{title}\";".toList) ++
    "\n  node [shape=box, fontname=\"Helvetica".toList, fun graph => ?_⟩
  rw [toDot, String.toList_intercalate, flatMap_dotEdges, intercalate_pieces, statements]
  cases title.isEmpty <;>
    simp [Scan.intercalate_cons_eq, flatMap_map, toList_dotNode, toList_dotEdge]

/-! ## What a drawing tells -/

theorem toList_escapeQuotes (name : String) : (escapeQuotes name).toList = escaped name.toList := by
  rw [escapeQuotes, String.toList_ofList, escaped]

theorem mem_statements {statement : Statement} (h : statement ∈ graph.statements) :
    (∃ name node, name ∈ graph.keys ∧ statement = declaration name node) ∨
      ∃ edge ∈ graph.edges, statement = edgeStatement edge := by
  rcases mem_append.mp h with h | h
  · obtain ⟨⟨name, node⟩, hentry, rfl⟩ := mem_map.mp h
    exact .inl ⟨name, node, mem_map.mpr ⟨_, hentry, rfl⟩, rfl⟩
  · obtain ⟨edge, hedge, rfl⟩ := mem_map.mp h
    exact .inr ⟨edge, hedge, rfl⟩

theorem caller_mem_keys {edge : String × String} (h : edge ∈ graph.edges) :
    edge.1 ∈ graph.keys := by
  obtain ⟨entry, hentry, hedge⟩ := mem_flatMap.mp h
  obtain ⟨callee, _, rfl⟩ := mem_map.mp hedge
  exact mem_map.mpr ⟨entry, hentry, rfl⟩

theorem quote_not_mem_pieces {start finish : List Char} {statements : List Statement}
    (hstart : '"' ∉ start) (hfinish : '"' ∉ finish)
    (h : ∀ statement ∈ statements, '"' ∉ statement.first ∧ '"' ∉ statement.middle ∧
      '"' ∉ statement.second ∧ '"' ∉ statement.last) :
    ∀ piece ∈ pieces start statements finish, '"' ∉ piece := by
  induction statements generalizing start with
  | nil => simp [pieces, hstart, hfinish]
  | cons statement rest ih =>
      obtain ⟨hfirst, hmiddle, hsecond, hlast⟩ := h statement mem_cons_self
      have hrest := ih hlast fun other hother => h other (mem_cons_of_mem _ hother)
      simpa [pieces, hstart, hfirst, hmiddle, hsecond] using hrest

/-- The pieces of the text between its double quotes. -/
theorem splitOn_toDot (h : graph.Unquoted) (front : List Char) :
    (front ++ '"' :: ['"'].intercalate
      (pieces ", fontsize=10];".toList graph.statements "\n\x7d".toList)).splitOn '"' =
      front.splitOn '"' ++ pieces ", fontsize=10];".toList graph.statements "\n\x7d".toList := by
  rw [splitOn_append_cons_self, splitOn_intercalate]
  · refine quote_not_mem_pieces (by decide) (by decide) fun statement hstatement => ?_
    rcases mem_statements hstatement with ⟨name, node, hname, rfl⟩ | ⟨edge, hedge, rfl⟩
    · have hcolor : '"' ∉ (fillColor node).toList := by
        unfold fillColor
        split <;> [decide; split <;> decide]
      have hescaped := escaped_eq_self_iff.mpr (h.1 name hname)
      simp [declaration, toList_escapeQuotes, hescaped, h.1 name hname, hcolor]
    · simp [edgeStatement, h.1 _ (caller_mem_keys hedge), h.2 edge hedge]
  · cases graph.statements <;> simp [pieces]

theorem statements_of_toDot {otherTitle : String} (hgraph : graph.Unquoted)
    (hother : other.Unquoted) (h : graph.toDot title = other.toDot otherTitle) :
    graph.statements = other.statements := by
  obtain ⟨front, hfront⟩ := toList_toDot title
  obtain ⟨front', hfront'⟩ := toList_toDot otherTitle
  have hlast (graph : CallGraph) :
      ∀ statement ∈ graph.statements, statement.last ≠ ", fontsize=10];".toList := by
    intro statement hstatement
    rcases mem_statements hstatement with ⟨_, _, _, rfl⟩ | ⟨_, _, rfl⟩
    · simp [declaration]
    · simp [edgeStatement]
  have hpieces := congrArg (splitOn '"') (congrArg String.toList h)
  rw [hfront, hfront', splitOn_toDot hgraph, splitOn_toDot hother] at hpieces
  exact statements_eq (hlast graph) (hlast other) hpieces

theorem keys_of_statements (graph : CallGraph) :
    (graph.statements.filter fun statement => statement.last = "];".toList).map Statement.first =
      graph.keys.map fun name => escaped name.toList := by
  simp [statements, filter_append, filter_map, declaration, edgeStatement, Function.comp_def,
    Table.keys, toList_escapeQuotes, filter_true, filter_false]

theorem edges_of_statements (graph : CallGraph) :
    (graph.statements.filter fun statement => statement.last = ";".toList).map
      (fun statement => (String.ofList statement.first, String.ofList statement.second)) =
      graph.edges := by
  simp [statements, filter_append, filter_map, declaration, edgeStatement, Function.comp_def,
    filter_true, filter_false]

/-- A drawing declares each function once, under a name that no other function has. An edge spells
a name as it is declared exactly if the name holds no double quote. If no name in two graphs holds
one, then they are drawn alike only if they have the same functions and the same edges. -/
theorem toDot_identifies (graph : CallGraph) (title : String) :
    Function.Injective dotId ∧
    graph.toDot title = "\n".intercalate (dotHeader title ++ graph.entries.map (fun (name, node) =>
      s!"  {dotId name} [style=filled, fillcolor=\"{fillColor node}\"];") ++
      graph.edges.map dotEdge ++ ["\x7d"]) ∧
    (∀ name, quoted name = dotId name ↔ '"' ∉ name.toList) ∧
    ∀ (other : CallGraph) (otherTitle : String), graph.Unquoted → other.Unquoted →
      graph.toDot title = other.toDot otherTitle →
        graph.keys = other.keys ∧ graph.edges = other.edges := by
  have hinjective : Function.Injective fun name : String => escaped name.toList :=
    fun _ _ h => String.toList_inj.mp (escaped_injective h)
  have hquoted {name name' : String} : quoted name = quoted name' ↔ name.toList = name'.toList := by
    simp [← String.toList_inj, quoted]
  have hnode (name : String) (node : CallNode) : dotNode name node =
      s!"  {dotId name} [style=filled, fillcolor=\"{fillColor node}\"];" := by
    simp [← String.toList_inj, dotNode, dotId, quoted, toString]
  refine ⟨fun name name' h => ?_, ?_, fun name => ?_, fun other otherTitle hgraph hother h => ?_⟩
  · have h := hquoted.mp h
    rw [toList_escapeQuotes, toList_escapeQuotes] at h
    exact hinjective h
  · simp only [toDot, flatMap_dotEdges, ← hnode]
    rfl
  · rw [dotId, hquoted, toList_escapeQuotes, eq_comm, escaped_eq_self_iff]
  · have hstatements := statements_of_toDot hgraph hother h
    constructor
    · refine map_injective_iff.mpr hinjective ?_
      rw [← keys_of_statements, ← keys_of_statements, hstatements]
    · rw [← edges_of_statements, ← edges_of_statements, hstatements]

def plainNode (calls : List String) : CallNode :=
  ⟨calls, [], false, false, none⟩

/-- A function that calls two others. -/
def fork : CallGraph :=
  ⟨[("a", plainNode ["b", "c"]), ("b", plainNode []), ("c", plainNode [])], by decide⟩

theorem toDot_fork : fork.Unquoted ∧ ∀ (other : CallGraph) otherTitle, other.Unquoted →
    fork.toDot "fork" = other.toDot otherTitle →
      fork.keys = other.keys ∧ fork.edges = other.edges := by
  have hfork : fork.Unquoted := by decide +kernel
  exact ⟨hfork, fun other otherTitle => (toDot_identifies fork "fork").2.2.2 other otherTitle hfork⟩

/-- A call of a name that spells two edges. -/
def forged : CallGraph :=
  ⟨[("a", plainNode ["b\";\n  \"a\" -> \"c"]), ("b", plainNode []), ("c", plainNode [])], by decide⟩

/-- With double quotes in names, an edge is not spelled as its ends are declared, and graphs with
different edges are drawn alike. -/
theorem toDot_quotes :
    dotEdges "a\"b" (plainNode ["a\"b"]) = ["  \"a\"b\" -> \"a\"b\";"] ∧
    dotId "a\"b" = "\"a\\\"b\"" ∧
    forged.toDot "" = fork.toDot "" ∧ fork.edges = [("a", "b"), ("a", "c")] ∧
    ∀ edge ∈ forged.edges, edge.2 ∉ forged.keys := by
  decide +kernel

end ContractAudit.CallGraph
