import AustralVM.GraphCycles
import Mathlib.Data.List.Basic
import Mathlib.Data.List.Forall2

/-!
# Values in a graph of definitions

Each node of a graph may have an entry, which names other nodes and makes a
value from theirs.  A node has a value if everything below it has an entry and
there is no cycle; otherwise a search from top to bottom fails in one way only,
at the first node without an entry or the first cycle that it comes to.
-/

namespace AustralVM.Dag

open Relation
open List hiding after

variable {Node Entry Value : Type*}

def Edge (entry : Node → Option Entry) (next : Entry → List Node) : Node → Node → Prop :=
  GraphEdge fun node => (entry node).map next

abbrev Reaches (entry : Node → Option Entry) (next : Entry → List Node) : Node → Node → Prop :=
  ReflTransGen (Edge entry next)

/-- The value of a node is made from the values of the nodes that its entry names. -/
inductive Evaluates (entry : Node → Option Entry) (next : Entry → List Node)
    (combine : Entry → List Value → Value) : Node → Value → Prop
  | node {node : Node} {found : Entry} {values : Node → Value} (isEntry : entry node = some found)
      (children : ∀ child ∈ next found, Evaluates entry next combine child (values child)) :
      Evaluates entry next combine node (combine found ((next found).map values))

inductive Failure (Node : Type*)
  | undefined (node : Node)
  | cycle (path : List Node)
  deriving DecidableEq, Repr

/-- A search that came down a path to a node fails: here, or below the first node that
the entry names and that has no value. -/
inductive Fails [DecidableEq Node] (entry : Node → Option Entry) (next : Entry → List Node)
    (combine : Entry → List Value → Value) : List Node → Node → Failure Node → Prop
  | undefined {path : List Node} {node : Node} (new : node ∉ path) (missing : entry node = none) :
      Fails entry next combine path node (.undefined node)
  | cycle {path : List Node} {node : Node} (again : node ∈ path) :
      Fails entry next combine path node (.cycle (path.drop (path.idxOf node) ++ [node]))
  | child {path before after : List Node} {node child : Node} {found : Entry}
      {failure : Failure Node} (new : node ∉ path) (isEntry : entry node = some found)
      (isNext : next found = before ++ child :: after)
      (earlier : ∀ node ∈ before, ∃ value, Evaluates entry next combine node value)
      (fails : Fails entry next combine (path ++ [node]) child failure) :
      Fails entry next combine path node failure

section Values

variable {entry : Node → Option Entry} {next : Entry → List Node}
  {combine : Entry → List Value → Value} {node : Node} {value : Value}

theorem edge_iff :
    Edge entry next source target ↔ ∃ found, entry source = some found ∧ target ∈ next found := by
  constructor
  · rintro ⟨_, isNext, member⟩
    obtain ⟨found, isEntry, rfl⟩ := Option.map_eq_some_iff.mp isNext
    exact ⟨found, isEntry, member⟩
  · rintro ⟨found, isEntry, member⟩
    exact ⟨next found, Option.map_eq_some_iff.mpr ⟨found, isEntry, rfl⟩, member⟩

theorem Evaluates.unique (first : Evaluates entry next combine node value)
    (second : Evaluates entry next combine node value') : value = value' := by
  induction first generalizing value' with
  | node isEntry _ ih =>
    cases second with
    | node isEntry' children' =>
      rw [isEntry] at isEntry'
      cases isEntry'
      congr 1
      apply map_congr_left
      intro child member
      exact ih child member (children' child member)

theorem exists_of_forall₂ (related : Forall₂ R nodes values) (member : node ∈ nodes) :
    ∃ value, R node value := by
  induction related with
  | nil => cases member
  | cons head _ ih =>
    rcases mem_cons.mp member with rfl | later
    · exact ⟨_, head⟩
    · exact ih later

theorem exists_valueOf (any : Value) {nodes : List Node}
    (all : ∀ node ∈ nodes, ∃ value, Evaluates entry next combine node value) :
    ∃ valueOf : Node → Value, ∀ node ∈ nodes, Evaluates entry next combine node (valueOf node) := by
  have each (node : Node) : ∃ value, node ∈ nodes → Evaluates entry next combine node value := by
    by_cases member : node ∈ nodes
    · obtain ⟨value, evaluates⟩ := all node member
      exact ⟨value, fun _ => evaluates⟩
    · exact ⟨any, fun member' => absurd member' member⟩
  choose valueOf evaluates using each
  exact ⟨valueOf, evaluates⟩

theorem Evaluates.of_forall₂ {found : Entry} {values : List Value}
    (isEntry : entry node = some found)
    (children : Forall₂ (Evaluates entry next combine) (next found) values) :
    Evaluates entry next combine node (combine found values) := by
  obtain ⟨valueOf, evaluates⟩ := exists_valueOf (combine found [])
    fun child member => exists_of_forall₂ children member
  have same : values = (next found).map valueOf := by
    clear isEntry
    generalize next found = nodes at children evaluates
    induction children with
    | nil => rfl
    | cons head _ ih =>
      rw [map_cons, ← head.unique (evaluates _ mem_cons_self),
        ← ih (forall_mem_cons.mp evaluates).2]
  rw [same]
  exact .node isEntry evaluates

variable (evaluates : Evaluates entry next combine node value)
include evaluates

theorem Evaluates.not_cycle : ¬ TransGen (Edge entry next) node node := by
  induction evaluates with
  | node isEntry _ ih =>
    intro cycle
    obtain ⟨child, first, back⟩ := TransGen.head'_iff.mp cycle
    obtain ⟨_, isFound, member⟩ := edge_iff.mp first
    rw [isEntry] at isFound
    cases isFound
    exact ih child member (TransGen.tail' back first)

theorem Evaluates.entry_ne_none {below : Node} (reaches : Reaches entry next node below) :
    entry below ≠ none := by
  induction evaluates with
  | node isEntry _ ih =>
    rcases ReflTransGen.cases_head reaches with rfl | ⟨child, first, rest⟩
    · rw [isEntry]
      exact Option.some_ne_none _
    · obtain ⟨_, isFound, member⟩ := edge_iff.mp first
      rw [isEntry] at isFound
      cases isFound
      exact ih child member rest

theorem Evaluates.of_same_entries
    (same : ∀ below found, Reaches entry next node below → Reaches entry' next node below →
      entry below = some found → entry' below = some found) :
    Evaluates entry' next combine node value := by
  induction evaluates with
  | @node node found _ isEntry _ ih =>
    have isEntry' := same node found .refl .refl isEntry
    refine .node isEntry' fun child member => ih child member ?_
    intro below other reaches reaches'
    exact same below other (.head (edge_iff.mpr ⟨found, isEntry, member⟩) reaches)
      (.head (edge_iff.mpr ⟨found, isEntry', member⟩) reaches')

end Values

/-! ## Paths -/

section Paths

variable {entry : Node → Option Entry} {next : Entry → List Node} {path : List Node} {node : Node}

theorem transGen_of_mem_path (chain : (path ++ [node]).IsChain (Edge entry next))
    (member : start ∈ path) : TransGen (Edge entry next) start node := by
  have reaching : (path ++ [node]).IsChain (TransGen (Edge entry next)) :=
    chain.imp fun _ _ => TransGen.single
  have pairwise := isChain_iff_pairwise.mp reaching
  exact (pairwise_append.mp pairwise).2.2 start member node (mem_singleton_self node)

theorem isChain_child (chain : (path ++ [node]).IsChain (Edge entry next))
    (isEntry : entry node = some found) (member : child ∈ next found) :
    (path ++ [node] ++ [child]).IsChain (Edge entry next) := by
  rw [append_assoc, singleton_append, isChain_append_cons_cons]
  exact ⟨chain, edge_iff.mpr ⟨found, isEntry, member⟩, isChain_singleton child⟩

end Paths

/-! ## Failures -/

theorem eq_of_first {p : Node → Prop} {before before' after after' : List Node} {node node' : Node}
    (same : before ++ node :: after = before' ++ node' :: after')
    (holds : ∀ earlier ∈ before, p earlier) (holds' : ∀ earlier ∈ before', p earlier)
    (lacks : ¬ p node) (lacks' : ¬ p node') : node = node' := by
  induction before generalizing before' with
  | nil =>
    cases before' with
    | nil => exact (List.cons.inj same).1
    | cons first =>
      rw [(List.cons.inj same).1] at lacks
      exact absurd (holds' first mem_cons_self) lacks
  | cons first _ ih =>
    cases before' with
    | nil =>
      rw [← (List.cons.inj same).1] at lacks'
      exact absurd (holds first mem_cons_self) lacks'
    | cons =>
      exact ih (List.cons.inj same).2 (forall_mem_of_forall_mem_cons holds)
        (forall_mem_of_forall_mem_cons holds')

section Failures

variable [DecidableEq Node] {entry : Node → Option Entry} {next : Entry → List Node}
  {combine : Entry → List Value → Value} {path : List Node} {node : Node}
  {failure : Failure Node}

theorem Fails.not_evaluates (fails : Fails entry next combine path node failure)
    (chain : (path ++ [node]).IsChain (Edge entry next)) :
    ¬ Evaluates entry next combine node value := by
  induction fails generalizing value with
  | undefined _ missing =>
    rintro ⟨isEntry, -⟩
    rw [missing] at isEntry
    cases isEntry
  | cycle again => exact fun evaluates => evaluates.not_cycle (transGen_of_mem_path chain again)
  | child _ isEntry isNext _ _ ih =>
    rintro ⟨isEntry', children⟩
    rw [isEntry] at isEntry'
    cases isEntry'
    have member : _ ∈ next _ := isNext ▸ mem_append_cons_self
    exact ih (isChain_child chain isEntry member) (children _ member)

theorem Fails.unique {failure' : Failure Node} (first : Fails entry next combine path node failure)
    (second : Fails entry next combine path node failure')
    (chain : (path ++ [node]).IsChain (Edge entry next)) : failure = failure' := by
  induction first with
  | undefined new missing =>
    cases second with
    | undefined => rfl
    | cycle again => exact absurd again new
    | child _ isEntry =>
      rw [missing] at isEntry
      cases isEntry
  | cycle again =>
    cases second with
    | undefined new' => exact absurd again new'
    | cycle => rfl
    | child new' => exact absurd again new'
  | @child path _ _ node child _ _ new isEntry isNext earlier fails ih =>
    cases second with
    | undefined _ missing =>
      rw [missing] at isEntry
      cases isEntry
    | cycle again => exact absurd again new
    | @child _ _ _ _ child' _ _ _ isEntry' isNext' earlier' fails' =>
      rw [isEntry] at isEntry'
      cases isEntry'
      have chainTo : (path ++ [node] ++ [child]).IsChain (Edge entry next) :=
        isChain_child chain isEntry (isNext ▸ mem_append_cons_self)
      have chainTo' : (path ++ [node] ++ [child']).IsChain (Edge entry next) :=
        isChain_child chain isEntry (isNext' ▸ mem_append_cons_self)
      have sameChild : child = child' := by
        rw [isNext] at isNext'
        apply eq_of_first isNext' earlier earlier'
        · rintro ⟨_, evaluates⟩
          exact fails.not_evaluates chainTo evaluates
        · rintro ⟨_, evaluates⟩
          exact fails'.not_evaluates chainTo' evaluates
      subst sameChild
      exact ih fails' chainTo

variable (entry next combine) in
/-- A search fails at the first of some nodes that has no value. -/
def FailsAmong (path nodes : List Node) (failure : Failure Node) : Prop :=
  ∃ before child after, nodes = before ++ child :: after ∧
    (∀ node ∈ before, ∃ value, Evaluates entry next combine node value) ∧
    Fails entry next combine path child failure

variable {nodes : List Node}

theorem Fails.of_among (new : node ∉ path) (isEntry : entry node = some found)
    (fails : FailsAmong entry next combine (path ++ [node]) (next found) failure) :
    Fails entry next combine path node failure := by
  obtain ⟨_, _, _, isNext, earlier, fails⟩ := fails
  exact .child new isEntry isNext earlier fails

theorem FailsAmong.not_evaluates (fails : FailsAmong entry next combine [] nodes failure) :
    ¬ ∀ node ∈ nodes, ∃ value, Evaluates entry next combine node value := by
  obtain ⟨_, child, _, rfl, _, fails⟩ := fails
  intro all
  obtain ⟨_, evaluates⟩ := all child mem_append_cons_self
  exact fails.not_evaluates (isChain_singleton child) evaluates

theorem FailsAmong.unique {failure' : Failure Node}
    (first : FailsAmong entry next combine [] nodes failure)
    (second : FailsAmong entry next combine [] nodes failure') : failure = failure' := by
  obtain ⟨_, child, _, isNodes, earlier, fails⟩ := first
  obtain ⟨_, child', _, isNodes', earlier', fails'⟩ := second
  have same : child = child' := by
    rw [isNodes] at isNodes'
    apply eq_of_first isNodes' earlier earlier'
    · rintro ⟨_, evaluates⟩
      exact fails.not_evaluates (isChain_singleton child) evaluates
    · rintro ⟨_, evaluates⟩
      exact fails'.not_evaluates (isChain_singleton child') evaluates
  subst same
  exact fails.unique fails' (isChain_singleton child)

variable (entry next) in
/-- A failure says the truth about the nodes below a root: a node there has no entry,
or the path is a cycle there. -/
def Genuine (root : Node) : Failure Node → Prop
  | .undefined node => Reaches entry next root node ∧ entry node = none
  | .cycle path => (∃ first middle, path = first :: middle ++ [first]) ∧
      path.IsChain (Edge entry next) ∧ ∀ node ∈ path, Reaches entry next root node

theorem Fails.genuine (fails : Fails entry next combine path node failure)
    (chain : (path ++ [node]).IsChain (Edge entry next))
    (reached : ∀ step ∈ path ++ [node], Reaches entry next root step) :
    Genuine entry next root failure := by
  induction fails with
  | undefined _ missing => exact ⟨reached _ (mem_append_right _ (mem_singleton_self _)), missing⟩
  | @cycle path node again =>
    have split := drop_eq_getElem_cons (idxOf_lt_length_of_mem again)
    rw [getElem_idxOf] at split
    have suffix : path.drop (path.idxOf node) ++ [node] <:+ path ++ [node] := by
      refine ⟨path.take (path.idxOf node), ?_⟩
      rw [← append_assoc, take_append_drop]
    refine ⟨⟨node, path.drop (path.idxOf node + 1), by rw [split]⟩, chain.suffix suffix, ?_⟩
    intro step member
    exact reached step (suffix.mem member)
  | child _ isEntry isNext _ _ ih =>
    have member : _ ∈ next _ := isNext ▸ mem_append_cons_self
    apply ih (isChain_child chain isEntry member)
    intro step isStep
    rcases mem_append.mp isStep with before | isChild
    · exact reached step before
    · rw [mem_singleton.mp isChild]
      have parent := reached _ (mem_append_right _ (mem_singleton_self _))
      exact parent.tail (edge_iff.mpr ⟨_, isEntry, member⟩)

end Failures

/-! ## Orders -/

/-- The nodes of a list have entries that name earlier nodes only. -/
inductive DependencyOrder (entry : Node → Option Entry) (next : Entry → List Node) :
    List Node → Prop
  | nil : DependencyOrder entry next []
  | snoc {order : List Node} {node : Node} {found : Entry}
      (ordered : DependencyOrder entry next order) (new : node ∉ order)
      (isEntry : entry node = some found) (children : ∀ child ∈ next found, child ∈ order) :
      DependencyOrder entry next (order ++ [node])

section Orders

variable {entry : Node → Option Entry} {next : Entry → List Node} {order : List Node}

namespace DependencyOrder

theorem nodup (ordered : DependencyOrder entry next order) : order.Nodup := by
  induction ordered with
  | nil => exact nodup_nil
  | snoc _ new _ _ ih =>
    rw [nodup_append_comm, singleton_append, nodup_cons]
    exact ⟨new, ih⟩

variable {node : Node}

theorem child_mem (ordered : DependencyOrder entry next order)
    (split : order = before ++ node :: after) (edge : Edge entry next node child) :
    child ∈ before := by
  induction ordered generalizing after with
  | nil => simp at split
  | @snoc order last _ _ _ isEntry children ih =>
    rcases eq_nil_or_concat after with rfl | ⟨after, end', rfl⟩
    · obtain ⟨rfl, same⟩ := append_inj' split rfl
      cases same
      obtain ⟨_, isOther, member⟩ := edge_iff.mp edge
      rw [isEntry] at isOther
      cases isOther
      exact children child member
    · have whole : order ++ [last] = before ++ node :: after ++ [end'] := by
        rw [split, concat_eq_append, append_assoc, cons_append]
      exact ih (append_inj' whole rfl).1

theorem mem_of_reaches (ordered : DependencyOrder entry next order) {below : Node}
    (member : node ∈ order) (reaches : Reaches entry next node below) : below ∈ order := by
  induction reaches using ReflTransGen.head_induction_on with
  | refl => exact member
  | head edge _ ih =>
    apply ih
    obtain ⟨_, _, split⟩ := append_of_mem member
    rw [split]
    exact mem_append_left _ (ordered.child_mem split edge)

theorem exists_evaluates (combine : Entry → List Value → Value)
    (ordered : DependencyOrder entry next order) (member : node ∈ order) :
    ∃ value, Evaluates entry next combine node value := by
  induction ordered generalizing node with
  | nil => cases member
  | @snoc _ _ found _ _ isEntry children ih =>
    rcases mem_append.mp member with earlier | isLast
    · exact ih earlier
    · rw [mem_singleton.mp isLast]
      obtain ⟨_, evaluates⟩ := exists_valueOf (combine found [])
        fun child isChild => ih (children child isChild)
      exact ⟨_, .node isEntry evaluates⟩

end DependencyOrder

end Orders

end AustralVM.Dag
