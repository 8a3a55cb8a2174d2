import Mathlib.Data.List.Chain
import Mathlib.Logic.Relation
import Mathlib.Data.Finset.Card

/-!
# Depth-first search for a cycle

A graph is given by the successors of its nodes; a node without an entry has
none.  The search goes down from a node and keeps the nodes of its path.  If it
finds nothing, no cycle can be reached from the node.
-/

namespace AustralVM

open List Relation TransGen

section

variable {Node : Type*} [DecidableEq Node]

/-- Search below a node for a successor that is on the path already, and return
the path to it.  The first argument bounds the depth. -/
def findCycle (successors : Node → Option (List Node)) :
    Nat → List Node → List Node → Node → Option (List Node)
  | 0, _, _, _ => none
  | fuel + 1, onPath, path, node =>
    match successors node with
    | none => none
    | some next => next.findSome? fun child =>
      if child ∈ onPath then some (path.reverse ++ [child])
      else findCycle successors fuel (child :: onPath) (child :: path) child

/-- Search a table of successors from an entry on. -/
def searchCycle (graph : List (Node × List Node)) (entry : Node) : Option (List Node) :=
  findCycle (graph.lookup ·) (graph.length + 1) [] [entry] entry

def GraphEdge (successors : Node → Option (List Node)) (source target : Node) : Prop :=
  ∃ next, successors source = some next ∧ target ∈ next

variable {successors : Node → Option (List Node)} {keys : Finset Node} {fuel : Nat}
  {onPath path : List Node} {node target : Node}

theorem child_of_findCycle_eq_none
    (nothing : findCycle successors (fuel + 1) onPath path node = none)
    (edge : GraphEdge successors node child) :
    child ∉ onPath ∧ findCycle successors fuel (child :: onPath) (child :: path) child = none := by
  obtain ⟨_, isNext, member⟩ := edge
  rw [findCycle, isNext] at nothing
  have atChild := findSome?_eq_none_iff.mp nothing child member
  by_cases again : child ∈ onPath
  · rw [if_pos again] at atChild
    cases atChild
  · rw [if_neg again] at atChild
    exact ⟨again, atChild⟩

theorem card_sdiff_cons_lt (known : ∀ source, successors source ≠ none → source ∈ keys)
    (edge : GraphEdge successors node child) (new : node ∉ onPath) :
    (keys \ (node :: onPath).toFinset).card < (keys \ onPath.toFinset).card := by
  obtain ⟨next, isNext, -⟩ := edge
  have isKey : node ∈ keys := known node (by rw [isNext]; exact Option.some_ne_none next)
  apply Finset.card_lt_card
  rw [toFinset_cons, Finset.ssubset_iff_of_subset]
  · refine ⟨node, ?_, ?_⟩
    · simp [isKey, new]
    · simp
  · apply Finset.sdiff_subset_sdiff (Finset.Subset.refl keys)
    exact Finset.subset_insert node onPath.toFinset

section

variable (known : ∀ source, successors source ≠ none → source ∈ keys)
  (enough : (keys \ onPath.toFinset).card < fuel)
  (nothing : findCycle successors fuel onPath path node = none)
  (walk : TransGen (GraphEdge successors) node target)
include known enough nothing walk

theorem notMem_of_findCycle_eq_none : target ∉ onPath := by
  induction walk using head_induction_on generalizing fuel onPath path with
  | single edge =>
    obtain ⟨_, rfl⟩ := Nat.exists_eq_add_of_lt enough
    exact (child_of_findCycle_eq_none nothing edge).1
  | head edge rest ih =>
    obtain ⟨_, rfl⟩ := Nat.exists_eq_add_of_lt enough
    obtain ⟨new, below⟩ := child_of_findCycle_eq_none nothing edge
    obtain ⟨_, first, -⟩ := head'_iff.mp rest
    have fewer := card_sdiff_cons_lt known first new
    intro member
    exact ih (by omega) below (mem_cons_of_mem _ member)

theorem no_cycle_of_findCycle_eq_none : ¬ TransGen (GraphEdge successors) target target := by
  induction walk using head_induction_on generalizing fuel onPath path with
  | single edge =>
    intro cycle
    obtain ⟨_, rfl⟩ := Nat.exists_eq_add_of_lt enough
    obtain ⟨new, below⟩ := child_of_findCycle_eq_none nothing edge
    obtain ⟨_, first, -⟩ := head'_iff.mp cycle
    have fewer := card_sdiff_cons_lt known first new
    exact notMem_of_findCycle_eq_none known (by omega) below cycle mem_cons_self
  | head edge rest ih =>
    obtain ⟨_, rfl⟩ := Nat.exists_eq_add_of_lt enough
    obtain ⟨new, below⟩ := child_of_findCycle_eq_none nothing edge
    obtain ⟨_, first, -⟩ := head'_iff.mp rest
    have fewer := card_sdiff_cons_lt known first new
    exact ih (by omega) below

end

theorem no_cycle_of_searchCycle_eq_none (nothing : searchCycle graph entry = none)
    (walk : TransGen (GraphEdge (graph.lookup ·)) entry target) :
    ¬ TransGen (GraphEdge (graph.lookup ·)) target target := by
  have known : ∀ node, graph.lookup node ≠ none → node ∈ (graph.map Prod.fst).toFinset := by
    intro _ present
    obtain ⟨_, found⟩ := Option.ne_none_iff_exists'.mp present
    obtain ⟨_, _, split, -⟩ := lookup_eq_some_iff.mp found
    rw [mem_toFinset, split]
    simp
  apply no_cycle_of_findCycle_eq_none known ?_ nothing walk
  have bound := toFinset_card_le (graph.map Prod.fst)
  rw [length_map] at bound
  rw [toFinset_nil, Finset.sdiff_empty]
  omega

/-! ## What a search finds -/

/-- The path that a search returns follows the edges from where it started, and
ends in a node of a cycle. -/
theorem walk_of_findCycle_eq_some (finds : findCycle successors fuel onPath path node = some found)
    (onTop : path.head? = some node) (linked : path.reverse.IsChain (GraphEdge successors))
    (above : ∀ earlier ∈ onPath, ReflTransGen (GraphEdge successors) earlier node) :
    found.IsChain (GraphEdge successors) ∧ path.reverse <+: found ∧
      ∃ last, found.getLast? = some last ∧ TransGen (GraphEdge successors) node last ∧
        TransGen (GraphEdge successors) last last := by
  induction fuel generalizing onPath path node with
  | zero => cases finds
  | succ _ ih =>
    rw [findCycle] at finds
    cases isNext : successors node with
    | none =>
      rw [isNext] at finds
      cases finds
    | some next =>
      rw [isNext] at finds
      obtain ⟨child, member, atChild⟩ := exists_of_findSome?_eq_some finds
      have edge : GraphEdge successors node child := ⟨next, isNext, member⟩
      have longer : (path.reverse ++ [child]).IsChain (GraphEdge successors) := by
        rw [isChain_append]
        refine ⟨linked, isChain_singleton child, ?_⟩
        intro _ isLast _ isFirst
        rw [getLast?_reverse, onTop] at isLast
        cases isLast
        cases isFirst
        exact edge
      by_cases again : child ∈ onPath
      · rw [if_pos again] at atChild
        cases atChild
        refine ⟨longer, prefix_append _ _, child, by simp, .single edge, ?_⟩
        exact tail' (above child again) edge
      · rw [if_neg again] at atChild
        have reaches : ∀ earlier ∈ child :: onPath,
            ReflTransGen (GraphEdge successors) earlier child := by
          intro earlier member
          rcases mem_cons.mp member with rfl | member
          · exact .refl
          · exact (above earlier member).tail edge
        obtain ⟨chain, starts, last, isLast, walk, cycle⟩ :=
          ih atChild rfl (by rwa [reverse_cons]) reaches
        rw [reverse_cons] at starts
        exact ⟨chain, (prefix_append _ _).trans starts, last, isLast, walk.head edge, cycle⟩

/-- A list of nodes is a cycle: there is an edge from each node to the next one and
from the last to the first, so that every node is on it. -/
structure IsCycle (edge : Node → Node → Prop) (path : List Node) : Prop where
  linked : path.IsChain edge
  closed : ∀ first last, path.head? = some first → path.getLast? = some last → edge last first
  together : ∀ node ∈ path, ∀ other ∈ path, TransGen edge node other

omit [DecidableEq Node] in
theorem isCycle_of_closed (linked : path.IsChain edge)
    (closed : ∀ first last, path.head? = some first → path.getLast? = some last →
      edge last first) : IsCycle edge path := by
  refine ⟨linked, closed, ?_⟩
  intro node isNode other isOther
  have nonempty : path ≠ [] := ne_nil_of_mem isNode
  have around := closed _ _ (head?_eq_some_head nonempty)
    (getLast?_eq_some_getLast nonempty)
  have toEnd : ReflTransGen edge node (path.getLast nonempty) :=
    linked.backwards_induction (ReflTransGen edge · _) path
      (fun _ _ step rest => rest.head step) (fun _ => .refl) node isNode
  have fromStart : ReflTransGen edge (path.head nonempty) other :=
    linked.induction (ReflTransGen edge _ ·) path
      (fun _ _ step rest => rest.tail step) (fun _ => .refl) other isOther
  exact (tail' toEnd around).trans_left fromStart

end

end AustralVM
