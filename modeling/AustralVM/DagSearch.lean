import AustralVM.DagEvaluation
import AustralVM.StoppableActions

/-!
# Searches that remember values

A search goes down from node to node.  Its state remembers the values that it
has found and the path to where it is.  What the search of one node promises is
stated here once, with what follows for the nodes of a list, one after the
other.
-/

namespace AustralVM.Dag

open Stoppable

variable {σ ε Node Entry Value : Type}

/-- What a search remembers: its path, the values that it looks up, and the nodes that
it reports. -/
structure Memory (σ Node Value : Type) where
  path : σ → List Node
  known : σ → Node → Value → Prop
  told : σ → Node → Prop

section Search

variable (entry : Node → Option Entry) (next : Entry → List Node)
  (combine : Entry → List Value → Value) (memory : Memory σ Node Value)

/-- Nothing is forgotten, and what is new are right values of nodes from some place. -/
structure Learns (below : Node → Prop) (state after : σ) : Prop where
  kept : ∀ node value, memory.known state node value → memory.known after node value
  added : ∀ node value, memory.known after node value → memory.known state node value ∨
    below node ∧ Evaluates entry next combine node value
  told : ∀ node, memory.told state node → memory.told after node

/-- The search of a node finds its value, or stops with the failure of the node. -/
def Answers [DecidableEq Node] (sound : σ → Prop) (reasonOf : Failure Node → ε)
    (action : Stoppable σ ε Value) (state : σ) (node : Node) : Prop :=
  Ends action state
    (fun value after => sound after ∧ memory.path after = memory.path state ∧
      Learns entry next combine memory (Reaches entry next node) state after ∧
      memory.told after node ∧ Evaluates entry next combine node value)
    (fun reason after =>
      Learns entry next combine memory (Reaches entry next node) state after ∧
      ∃ failure, reason = reasonOf failure ∧
        Fails entry next combine (memory.path state) node failure)

variable {entry next combine memory}

namespace Learns

variable {below below' : Node → Prop} {state between after : σ}

theorem refl (state : σ) : Learns entry next combine memory below state state :=
  ⟨fun _ _ known => known, fun _ _ known => .inl known, fun _ told => told⟩

theorem trans (first : Learns entry next combine memory below state between)
    (second : Learns entry next combine memory below between after) :
    Learns entry next combine memory below state after := by
  constructor
  · intro node value known
    exact second.kept node value (first.kept node value known)
  · intro node value known
    rcases second.added node value known with known | new
    · exact first.added node value known
    · exact .inr new
  · intro node told
    exact second.told node (first.told node told)

theorem mono (learns : Learns entry next combine memory below state after)
    (implies : ∀ node, below node → below' node) :
    Learns entry next combine memory below' state after :=
  ⟨learns.kept, fun node value known =>
    (learns.added node value known).imp_right fun new => ⟨implies node new.1, new.2⟩, learns.told⟩

theorem add (learns : Learns entry next combine memory below state between)
    (new : ∀ other, ¬ memory.known between node other) (isBelow : below node)
    (evaluates : Evaluates entry next combine node value)
    (known : ∀ other found, memory.known last other found ↔
      other = node ∧ found = value ∨ other ≠ node ∧ memory.known between other found)
    (told : ∀ other, memory.told between other → memory.told last other) :
    Learns entry next combine memory below state last := by
  constructor
  · intro other found isKnown
    have still := learns.kept other found isKnown
    refine (known other found).mpr (.inr ⟨?_, still⟩)
    rintro rfl
    exact new found still
  · intro other found isKnown
    rcases (known other found).mp isKnown with ⟨rfl, rfl⟩ | ⟨-, still⟩
    · exact .inr ⟨isBelow, evaluates⟩
    · exact learns.added other found still
  · intro other isTold
    exact told other (learns.told other isTold)

end Learns

variable [DecidableEq Node] {sound : σ → Prop} {reasonOf : Failure Node → ε}
  {round : Node → Stoppable σ ε Value} {nodes : List Node} {state : σ}

variable (entry next combine memory) in
/-- Some nodes are reported, and their values are right. -/
def Found (state : σ) : List Node → List Value → Prop :=
  List.Forall₂ fun node value => memory.told state node ∧
    Evaluates entry next combine node value

theorem ends_mapM_of_answers
    (each : ∀ node ∈ nodes, ∀ between, sound between → memory.path between = memory.path state →
      Answers entry next combine memory sound reasonOf (round node) between node)
    (start : sound state)
    (within : ∀ node ∈ nodes, ∀ lower, Reaches entry next node lower → below lower) :
    Ends (nodes.mapM round) state
      (fun values after => sound after ∧ memory.path after = memory.path state ∧
        Learns entry next combine memory below state after ∧
        Found entry next combine memory after nodes values)
      (fun reason after => Learns entry next combine memory below state after ∧
        ∃ failure, reason = reasonOf failure ∧
          FailsAmong entry next combine (memory.path state) nodes failure) := by
  apply ends_mapM fun done values between => sound between ∧
    memory.path between = memory.path state ∧
    Learns entry next combine memory below state between ∧
    Found entry next combine memory between done values
  · rintro done node rest values between split ⟨kept, path, learns, found⟩
    have member : node ∈ nodes := split ▸ List.mem_append_cons_self
    apply (each node member between kept path).mono
    · rintro value after ⟨keptAfter, pathAfter, more, told, evaluates⟩
      refine ⟨keptAfter, pathAfter.trans path, learns.trans (more.mono (within node member)), ?_⟩
      have foundAfter : Found entry next combine memory after done values :=
        found.imp fun node value both => ⟨more.told node both.1, both.2⟩
      exact List.rel_append foundAfter (.cons ⟨told, evaluates⟩ .nil)
    · rintro _ _ ⟨more, failure, isReason, fails⟩
      rw [path] at fails
      refine ⟨learns.trans (more.mono (within node member)), failure, isReason, done, node, rest,
        split, ?_, fails⟩
      intro _ isEarlier
      obtain ⟨value, -, evaluates⟩ := exists_of_forall₂ found isEarlier
      exact ⟨value, evaluates⟩
  · exact ⟨start, rfl, .refl state, .nil⟩

/-- The search goes down from a node that has been put on the path: it comes back with
the values for the node, or with the failure of the node. -/
theorem ends_mapM_next (state : σ) (start : sound below) (new : node ∉ memory.path state)
    (isEntry : entry node = some found) (path : memory.path below = memory.path state ++ [node])
    (known : memory.known below = memory.known state) (told : memory.told below = memory.told state)
    (each : ∀ child ∈ next found, ∀ between, sound between →
      memory.path between = memory.path state ++ [node] →
      Answers entry next combine memory sound reasonOf (round child) between child) :
    Ends ((next found).mapM round) below
      (fun values after => sound after ∧ memory.path after = memory.path state ++ [node] ∧
        Learns entry next combine memory (Reaches entry next node) state after ∧
        Found entry next combine memory after (next found) values ∧
        Evaluates entry next combine node (combine found values)) (fun reason after =>
        Learns entry next combine memory (Reaches entry next node) state after ∧
        ∃ failure, reason = reasonOf failure ∧
          Fails entry next combine (memory.path state) node failure) := by
  have fromState {after : σ}
      (learns : Learns entry next combine memory (Reaches entry next node) below after) :
      Learns entry next combine memory (Reaches entry next node) state after := by
    obtain ⟨kept, added, reported⟩ := learns
    rw [known] at kept added
    rw [told] at reported
    exact ⟨kept, added, reported⟩
  have reached (child : Node) (member : child ∈ next found) (lower : Node)
      (reaches : Reaches entry next child lower) : Reaches entry next node lower :=
    .head (edge_iff.mpr ⟨found, isEntry, member⟩) reaches
  have searched := ends_mapM_of_answers
    (fun child isChild between kept isPath => each child isChild between kept (isPath.trans path))
    start reached
  rw [path] at searched
  apply searched.mono
  · rintro values _ ⟨kept, isPath, learns, values⟩
    exact ⟨kept, isPath, fromState learns, values,
      .of_forall₂ isEntry (values.imp fun _ _ both => both.2)⟩
  · rintro _ _ ⟨learns, failure, isReason, fails⟩
    exact ⟨fromState learns, failure, isReason, .of_among new isEntry fails⟩

end Search

end AustralVM.Dag
