import AustralVM.ExceptRules
import AustralVM.GraphCycles

/-!
# Recursion in package modules

`Totality.check_acyclic` rejects the modules of a package that have a cycle of calls.  It
searches from every definition and remembers the nodes that it has finished, and reports
the part of its path that is the cycle.
-/

namespace AustralVM.Package

open List Relation

inductive CallNode
  | function (id : Nat)
  | method (id : Nat)
  deriving DecidableEq

def CallNode.key : CallNode → String
  | .function id => "function#" ++ toString id
  | .method id => "method#" ++ toString id

/-- The definitions of a module with their names, and the calls of each. -/
structure CallGraph where
  defs : List (CallNode × String)
  edges : List (CallNode × List CallNode)

namespace CallGraph

variable (graph : CallGraph)

def nodeName (node : CallNode) : String := (graph.defs.lookup node).getD node.key

/-- What a node calls inside the module. -/
def callees (node : CallNode) : List CallNode :=
  ((graph.edges.lookup node).getD []).filter (· ∈ graph.defs.map Prod.fst)

/-- Search below a node; the nodes that are finished are returned, or a cycle.  The table
`on_path` has the nodes of the stack.  The first argument bounds the depth. -/
def dfs : Nat → List CallNode → List CallNode → CallNode → Except (List CallNode) (List CallNode)
  | 0, _, _, _ => .error []
  | fuel + 1, stack, visited, node =>
    if node ∈ stack then .error (stack.reverse.dropWhile (· ≠ node) ++ [node])
    else if node ∈ visited then .ok visited
    else do
      let visited ← (graph.callees node).foldlM (dfs fuel (node :: stack)) visited
      pure (node :: visited)

def search : Except (List CallNode) (List CallNode) :=
  (graph.defs.map Prod.fst).foldlM (graph.dfs (graph.defs.length + 1) []) []

def violation (moduleName : String) (path : List CallNode) : String :=
  "Package totality violation in module `" ++ moduleName ++ "` (rule 2): recursive call cycle: " ++
    " -> ".intercalate (path.map graph.nodeName) ++ " — recursion (direct or mutual) is rejected " ++
    "in package modules: v1 recognizes no structurally descending recursion"

def checkAcyclic (moduleName : String) : Except String Unit :=
  match graph.search with
  | .ok _ => .ok ()
  | .error path => .error (graph.violation moduleName path)

def Calls (caller callee : CallNode) : Prop := callee ∈ graph.callees caller

/-- The nodes are on no cycle, and neither is what they call. -/
def Finished (visited : List CallNode) : Prop :=
  ∀ node ∈ visited, ¬ TransGen graph.Calls node node ∧
    ∀ callee, graph.Calls node callee → callee ∈ visited

/-- The path leads around a cycle and back to its first node. -/
def GoesRound (path : List CallNode) : Prop :=
  ∃ first between, path = first :: between ++ [first] ∧ IsCycle graph.Calls (first :: between)

variable {graph} {stack visited nodes : List CallNode}

theorem goesRound_of_mem (linked : (stack.reverse ++ [node]).IsChain graph.Calls)
    (onStack : node ∈ stack) : graph.GoesRound (stack.reverse.dropWhile (· ≠ node) ++ [node]) := by
  obtain ⟨start, between, same, new⟩ := eq_append_cons_of_mem (mem_reverse.mpr onStack)
  have others : ∀ other ∈ start, decide (other ≠ node) = true := by
    intro other isOther
    exact decide_eq_true fun isNode => new (isNode ▸ isOther)
  rw [same, append_assoc, isChain_append] at linked
  obtain ⟨linked, -, closes⟩ := isChain_append.mp linked.2.1
  rw [same, dropWhile_append_of_pos others, dropWhile_cons_of_neg (by simp)]
  refine ⟨node, between, rfl, isCycle_of_closed linked ?_⟩
  intro _ last isHead isLast
  cases isHead
  exact closes last isLast node rfl

variable (graph) in
/-- A search finishes the nodes, or it finds a cycle. -/
def Searches (visited nodes : List CallNode) : Except (List CallNode) (List CallNode) → Prop :=
  Except.Ends graph.GoesRound fun found =>
    graph.Finished found ∧ visited ⊆ found ∧ nodes ⊆ found

theorem searches_foldlM {round : List CallNode → CallNode → Except (List CallNode) (List CallNode)}
    (each : ∀ node ∈ nodes, ∀ visited, graph.Finished visited →
      graph.Searches visited [node] (round visited node)) (finished : graph.Finished visited) :
    graph.Searches visited nodes (nodes.foldlM round visited) := by
  induction nodes generalizing visited with
  | nil => exact ⟨finished, Subset.refl _, nil_subset _⟩
  | cons node nodes ih =>
    obtain ⟨atNode, each⟩ := forall_mem_cons.mp each
    rw [foldlM_cons]
    apply (atNode visited finished).bind
    rintro between - ⟨finished, more, isIn⟩
    have rest := ih each finished
    cases ran : nodes.foldlM round between with
    | error => rwa [ran] at rest
    | ok =>
      rw [ran] at rest
      obtain ⟨finished, most, others⟩ := rest
      exact ⟨finished, Subset.trans more most,
        cons_subset.mpr ⟨most (isIn mem_cons_self), others⟩⟩

theorem searches_dfs (depth : fuel + stack.length = graph.defs.length + 1) (distinct : stack.Nodup)
    (known : stack ⊆ graph.defs.map Prod.fst) (isDefined : node ∈ graph.defs.map Prod.fst)
    (linked : (stack.reverse ++ [node]).IsChain graph.Calls) (finished : graph.Finished visited) :
    graph.Searches visited [node] (graph.dfs fuel stack visited node) := by
  induction fuel generalizing stack visited node with
  | zero =>
    have := (subperm_of_subset distinct known).length_le
    rw [length_map] at this
    omega
  | succ fuel ih =>
    rw [dfs]
    split_ifs with onStack isVisited
    · exact goesRound_of_mem linked onStack
    · exact ⟨finished, Subset.refl _, cons_subset.mpr ⟨isVisited, nil_subset _⟩⟩
    · have below : ∀ callee ∈ graph.callees node, ∀ visited, graph.Finished visited →
          graph.Searches visited [callee] (graph.dfs fuel (node :: stack) visited callee) := by
        intro callee call visited finished
        apply ih _ (nodup_cons.mpr ⟨onStack, distinct⟩) (cons_subset.mpr ⟨isDefined, known⟩)
          (of_decide_eq_true (mem_filter.mp call).2) _ finished
        · rw [length_cons]
          omega
        · rw [reverse_cons]
          refine isChain_append.mpr ⟨linked, isChain_singleton callee, ?_⟩
          intro last isLast _ isHead
          rw [getLast?_concat] at isLast
          cases isLast
          cases isHead
          exact call
      apply (searches_foldlM below finished).bind
      rintro between - ⟨finished, more, callees⟩
      refine ⟨forall_mem_cons.mpr ⟨⟨?_, ?_⟩, ?_⟩, subset_cons_of_subset _ more, by simp⟩
      · -- The next node of a cycle is one of the callees, which are on none.
        intro cycle
        obtain ⟨callee, call, back⟩ := TransGen.head'_iff.mp cycle
        exact (finished callee (callees call)).1 (TransGen.tail' back call)
      · exact fun callee call => mem_cons_of_mem _ (callees call)
      · intro other isOther
        refine ⟨(finished other isOther).1, fun callee call => ?_⟩
        exact mem_cons_of_mem _ ((finished other isOther).2 callee call)

/-- For every call graph a module is rejected exactly if the graph has a cycle, and the
path in the message goes round one. -/
theorem checkAcyclic_error_iff (graph : CallGraph) (moduleName : String) :
    ((∃ message, graph.checkAcyclic moduleName = .error message) ↔
        ∃ node, TransGen graph.Calls node node) ∧
      ∀ message, graph.checkAcyclic moduleName = .error message →
        ∃ path, message = graph.violation moduleName path ∧ graph.GoesRound path := by
  have searches : graph.Searches [] (graph.defs.map Prod.fst) graph.search :=
    searches_foldlM (fun node isDefined visited => searches_dfs rfl nodup_nil (nil_subset _)
      isDefined (isChain_singleton node)) (forall_mem_nil _)
  rw [checkAcyclic]
  cases searched : graph.search with
  | ok visited =>
    rw [searched] at searches
    obtain ⟨finished, -, roots⟩ := searches
    refine ⟨iff_of_false (by simp) ?_, by simp⟩
    rintro ⟨node, cycle⟩
    obtain ⟨_, -, call⟩ := TransGen.tail'_iff.mp cycle
    have isDefined := of_decide_eq_true (mem_filter.mp call).2
    exact (finished node (roots isDefined)).1 cycle
  | error path =>
    rw [searched] at searches
    have ⟨first, _, _, cycle⟩ := searches
    refine ⟨iff_of_true ⟨_, rfl⟩ ⟨first, ?_⟩, ?_⟩
    · exact cycle.together first mem_cons_self first mem_cons_self
    · rintro _ ⟨⟩
      exact ⟨path, rfl, searches⟩

end CallGraph

end AustralVM.Package
