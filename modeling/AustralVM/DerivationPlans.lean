import AustralVM.DagSearch
import AustralVM.WireFormat
import Mathlib.Data.List.AList
import Mathlib.Data.String.Basic
import Mathlib.Data.Vector.Basic

/-!
# Plans of derivations

A plan is a set of derivations by name.  It is resolved from the bottom up:
each derivation gets an identity that is made from those of its dependencies,
and the names are listed with dependencies first.
-/

namespace AustralVM.Eval

open List AList

abbrev DerivationId := List.Vector UInt8 32

structure Derivation where
  name : String
  version : String
  builderSymbol : String
  dependencies : List String
  sources : List String
  envVars : List (String × String)
  deriving DecidableEq, Repr

open AustralVM.Eval.Derivation (dependencies)

inductive EvalError
  | unknown (name : String)
  | cycle (names : List String)
  | duplicate (name : String)
  deriving DecidableEq, Repr

/-! ## Identities -/

def magic : List UInt8 := utf8 "AVM_DRV_V1" ++ [0]

def pairLe (pair pair' : String × String) : Bool :=
  decide (pair.1 < pair'.1 ∨ pair.1 = pair'.1 ∧ pair.2 ≤ pair'.2)

def calculateDerivationHash (blake3 : List UInt8 → DerivationId) (drv : Derivation)
    (depIds : List DerivationId) : DerivationId :=
  let sortedDeps := depIds.mergeSort fun id id' => decide (id.toList ≤ id'.toList)
  let sortedSources := drv.sources.mergeSort fun source source' => decide (source ≤ source')
  let sortedEnv := drv.envVars.mergeSort pairLe
  blake3 <| magic ++
    [drv.name, drv.version, drv.builderSymbol].flatMap writeString ++
    writeU32 sortedDeps.length ++ sortedDeps.flatMap List.Vector.toList ++
    writeU32 sortedSources.length ++ sortedSources.flatMap writeString ++
    writeU32 sortedEnv.length ++
      sortedEnv.flatMap fun (key, value) => writeString key ++ writeString value

/-! ## Plans -/

structure Plan where
  derivations : AList fun _ : String => Derivation

namespace Plan

def insert (plan : Plan) (drv : Derivation) : Except EvalError Plan :=
  if drv.name ∈ plan.derivations then .error (.duplicate drv.name)
  else .ok ⟨plan.derivations.insert drv.name drv⟩

def get (plan : Plan) (name : String) : Option Derivation := plan.derivations.lookup name

def allNames (plan : Plan) : List String :=
  plan.derivations.keys.mergeSort fun name name' => decide (name ≤ name')

def len (plan : Plan) : Nat := plan.derivations.keys.length

end Plan

/-- Why an evaluation has no result: an error of the plan, a panic, or the bound that
the recursion has here and not in the program. -/
inductive Halt
  | error (error : EvalError)
  | panic (message : String)
  | depth
  deriving DecidableEq, Repr

structure ResolvedGraph where
  ids : AList fun _ : String => DerivationId
  order : List String

/-- What the recursion has resolved, and the names that it is below. -/
structure Walk where
  ids : AList fun _ : String => DerivationId
  order : List String
  stack : List String
  onStack : Finset String

/-- The names from one on the stack to the name that comes again. -/
def loopNames (stack : List String) (name : String) : List String :=
  stack.drop ((stack.idxOf? name).getD 0) ++ [name]

open Stoppable

section Resolve

variable (blake3 : List UInt8 → DerivationId) (plan : Plan)

/-- The first argument bounds the depth of the recursion. -/
def resolveNode : Nat → String → Stoppable Walk Halt DerivationId
  | 0 => fun _ => stop .depth
  | depth + 1 => fun name => do
    let walk ← get
    match walk.ids.lookup name with
    | some id => return id
    | none =>
      let drv ← ofOption (.error (.unknown name)) (plan.get name)
      if name ∈ walk.onStack then
        stop (.error (.cycle (loopNames walk.stack name)))
      else
        set { walk with stack := walk.stack ++ [name], onStack := insert name walk.onStack }
        let depIds ← drv.dependencies.mapM (resolveNode depth)
        let id := calculateDerivationHash blake3 drv depIds
        modify fun walk =>
          { ids := walk.ids.insert name id, order := walk.order ++ [name],
            stack := walk.stack.dropLast, onStack := walk.onStack.erase name }
        return id

/-- Each name on the stack is one of the plan, so the recursion is no deeper than the
plan is long. -/
def resolve (target : Option String) : Except Halt ResolvedGraph := do
  let roots ← match target with
    | some name => if name ∈ plan.derivations then .ok [name] else .error (.error (.unknown name))
    | none => .ok plan.allNames
  match roots.mapM (resolveNode blake3 plan (plan.len + 1)) ⟨∅, [], [], ∅⟩ with
  | (.ok _, walk) => .ok ⟨walk.ids, walk.order⟩
  | (.error halt, _) => .error halt

end Resolve

/-! ## Meaning of plans -/

def EvalError.ofFailure : Dag.Failure String → EvalError
  | .undefined name => .unknown name
  | .cycle names => .cycle names

/-- The identity of a derivation, from the bottom up. -/
abbrev Plan.Evaluates (blake3 : List UInt8 → DerivationId) (plan : Plan) :
    String → DerivationId → Prop :=
  Dag.Evaluates plan.get dependencies (calculateDerivationHash blake3)

abbrev Plan.Answers {σ : Type} (blake3 : List UInt8 → DerivationId) (plan : Plan)
    (memory : Dag.Memory σ String DerivationId) (sound : σ → Prop)
    (action : Stoppable σ Halt DerivationId) (state : σ) (name : String) : Prop :=
  Dag.Answers plan.get dependencies (calculateDerivationHash blake3) memory sound
    (fun failure => .error (.ofFailure failure)) action state name

def Plan.DependsOn (plan : Plan) : String → String → Prop :=
  Dag.Edge plan.get dependencies

def Plan.roots (plan : Plan) : Option String → List String
  | some name => [name]
  | none => plan.allNames

def Plan.Reachable (plan : Plan) (target : Option String) (name : String) : Prop :=
  ∃ root ∈ plan.roots target, Relation.ReflTransGen plan.DependsOn root name

theorem Plan.Reachable.tail {plan : Plan} {target : Option String} {name dep : String}
    (reachable : plan.Reachable target name) (depends : plan.DependsOn name dep) :
    plan.Reachable target dep := by
  obtain ⟨root, isRoot, reaches⟩ := reachable
  exact ⟨root, isRoot, .tail reaches depends⟩

namespace Plan

/-- The names on a stack are different names of the plan. -/
structure Stacked (plan : Plan) (stack : List String) : Prop where
  nodup : stack.Nodup
  defined : ∀ name ∈ stack, name ∈ plan.derivations

variable {plan : Plan} {stack : List String} {name : String}

theorem Stacked.length_le (stacked : plan.Stacked stack) : stack.length ≤ plan.len :=
  (stacked.nodup.subperm stacked.defined).length_le

theorem Stacked.push (stacked : plan.Stacked stack) (new : name ∉ stack)
    (isEntry : plan.get name = some drv) : plan.Stacked (stack ++ [name]) := by
  constructor
  · rw [nodup_append_comm, singleton_append, nodup_cons]
    exact ⟨new, stacked.nodup⟩
  · intro other member
    rcases mem_append.mp member with earlier | isName
    · exact stacked.defined other earlier
    · rw [mem_singleton.mp isName]
      exact lookup_isSome.mp (Option.isSome_of_eq_some isEntry)

theorem len_lt_below (enough : plan.len < depth + 1 + stack.length)
    (isBelow : below = stack ++ [name]) : plan.len < depth + below.length := by
  rw [isBelow, length_append, length_singleton]
  omega

theorem Stacked.not_mem (stacked : plan.Stacked stack) (missing : plan.get name = none) :
    name ∉ stack := fun member => lookup_eq_none.mp missing (stacked.defined name member)

end Plan

theorem loopNames_of_mem (member : name ∈ stack) :
    loopNames stack name = stack.drop (stack.idxOf name) ++ [name] := by
  have position : stack.idxOf? name = some (stack.idxOf name) := by
    induction stack with
    | nil => cases member
    | cons first _ ih =>
      by_cases same : first = name
      · simp [idxOf?_cons, same]
      · have later := (mem_cons.mp member).resolve_left (Ne.symm same)
        simp [idxOf?_cons, same, ih later]
  rw [loopNames, position, Option.getD_some]

/-! ## Resolution of one name -/

theorem lookup_insert_eq_some {table : AList fun _ : String => DerivationId}
    {name other : String} {id value : DerivationId} :
    (table.insert name id).lookup other = some value ↔
      other = name ∧ value = id ∨ other ≠ name ∧ table.lookup other = some value := by
  by_cases same : other = name
  · subst same
    simp [lookup_insert, eq_comm]
  · simp [lookup_insert_ne same, same]

theorem mem_of_lookup_eq_some {table : AList fun _ : String => DerivationId} {name : String}
    {id : DerivationId} (found : table.lookup name = some id) : name ∈ table :=
  lookup_isSome.mp (Option.isSome_of_eq_some found)

def walkMemory : Dag.Memory Walk String DerivationId where
  path := Walk.stack
  known walk name id := walk.ids.lookup name = some id
  told walk name := name ∈ walk.ids

structure Walk.Sound (blake3 : List UInt8 → DerivationId) (plan : Plan) (walk : Walk) : Prop where
  ordered : Dag.DependencyOrder plan.get dependencies walk.order
  keys : ∀ name, name ∈ walk.ids ↔ name ∈ walk.order
  evaluates : ∀ name id, walk.ids.lookup name = some id → plan.Evaluates blake3 name id
  stacked : plan.Stacked walk.stack
  onStack : walk.onStack = walk.stack.toFinset
  pending : ∀ name ∈ walk.stack, name ∉ walk.order

section ResolveNode

variable {blake3 : List UInt8 → DerivationId} {plan : Plan} {walk : Walk} {name : String}
  {drv : Derivation}

theorem Walk.Sound.push (sound : walk.Sound blake3 plan) (new : name ∉ walk.stack)
    (unknown : name ∉ walk.ids) (isEntry : plan.get name = some drv) :
    Walk.Sound blake3 plan
      { walk with stack := walk.stack ++ [name], onStack := insert name walk.onStack } where
  ordered := sound.ordered
  keys := sound.keys
  evaluates := sound.evaluates
  stacked := sound.stacked.push new isEntry
  onStack := by
    rw [sound.onStack]
    ext other
    simp
  pending := by
    intro other member
    rcases mem_append.mp member with earlier | isName
    · exact sound.pending other earlier
    · rw [mem_singleton.mp isName, ← sound.keys]
      exact unknown

theorem Walk.Sound.pop {stack : List String} {id : DerivationId} (sound : walk.Sound blake3 plan)
    (top : walk.stack = stack ++ [name]) (isEntry : plan.get name = some drv)
    (children : ∀ dep ∈ drv.dependencies, dep ∈ walk.ids)
    (evaluates : plan.Evaluates blake3 name id) :
    Walk.Sound blake3 plan
      { ids := walk.ids.insert name id, order := walk.order ++ [name],
        stack := walk.stack.dropLast, onStack := walk.onStack.erase name } := by
  have isTop : name ∈ walk.stack := by
    rw [top]
    exact mem_append_right _ (mem_singleton_self name)
  have nodup := sound.stacked.nodup
  rw [top, nodup_append_comm, singleton_append, nodup_cons] at nodup
  exact
    { ordered := sound.ordered.snoc (sound.pending name isTop) isEntry fun dep member =>
        (sound.keys dep).mp (children dep member)
      keys := by
        intro _
        rw [mem_insert, sound.keys, mem_append, mem_singleton, or_comm]
      evaluates := by
        intro other otherId found
        rcases lookup_insert_eq_some.mp found with ⟨rfl, rfl⟩ | ⟨-, found⟩
        · exact evaluates
        · exact sound.evaluates other otherId found
      stacked := by
        rw [top, dropLast_concat]
        exact ⟨nodup.2, fun other member => sound.stacked.defined other
          (top ▸ mem_append_left _ member)⟩
      onStack := by
        rw [sound.onStack, top, dropLast_concat]
        ext other
        have new := nodup.1
        simp only [Finset.mem_erase, mem_toFinset, mem_append, mem_singleton]
        constructor
        · rintro ⟨different, member | same⟩
          · exact member
          · exact absurd same different
        · intro member
          exact ⟨fun same => new (same ▸ member), .inl member⟩
      pending := by
        intro other member
        rw [top, dropLast_concat] at member
        rw [mem_append, mem_singleton]
        rintro (earlier | rfl)
        · exact sound.pending other (top ▸ mem_append_left _ member) earlier
        · exact nodup.1 member }

theorem answers_resolveNode (depth : Nat) (walk : Walk) (name : String)
    (sound : walk.Sound blake3 plan) (enough : plan.len < depth + walk.stack.length) :
    plan.Answers blake3 walkMemory (Walk.Sound blake3 plan) (resolveNode blake3 plan depth name)
      walk name := by
  induction depth generalizing walk name with
  | zero =>
    have := sound.stacked.length_le
    omega
  | succ _ ih =>
    rw [Plan.Answers, Dag.Answers, resolveNode]
    apply ends_get_bind
    cases known : walk.ids.lookup name with
    | some id =>
      exact ends_pure ⟨sound, rfl, .refl walk,
        mem_of_lookup_eq_some known, sound.evaluates name id known⟩
    | none =>
      cases isEntry : plan.get name with
      | none =>
        exact ends_stop ⟨.refl walk, .undefined name, rfl,
          .undefined (sound.stacked.not_mem isEntry) isEntry⟩
      | some drv =>
        apply ends_some_bind
        by_cases again : name ∈ walk.onStack
        · rw [if_pos again]
          rw [sound.onStack, mem_toFinset] at again
          exact ends_stop ⟨.refl walk, .cycle _, by rw [loopNames_of_mem again]; rfl,
            .cycle again⟩
        rw [if_neg again]
        rw [sound.onStack, mem_toFinset] at again
        apply ends_set_bind
        have pushed := sound.push again (lookup_eq_none.mp known) isEntry
        have searched := Dag.ends_mapM_next walk pushed again isEntry rfl rfl rfl
          fun dep _ between soundBetween isPath => ih between dep soundBetween
            (Plan.len_lt_below enough isPath)
        apply searched.bind
        rintro _ after ⟨soundAfter, top, learns, children, evaluates⟩
        apply ends_modify_bind
        have isTop : name ∈ after.stack := by
          rw [show after.stack = walk.stack ++ [name] from top]
          exact mem_append_right _ (mem_singleton_self name)
        have unknown (id : DerivationId) : ¬ after.ids.lookup name = some id := by
          intro isId
          exact soundAfter.pending name isTop
            ((soundAfter.keys name).mp (mem_of_lookup_eq_some isId))
        have resolved (dep : String) (member : dep ∈ drv.dependencies) : dep ∈ after.ids := by
          obtain ⟨_, told, -⟩ := Dag.exists_of_forall₂ children member
          exact told
        refine ends_pure ⟨soundAfter.pop top isEntry resolved evaluates, ?_,
          learns.add unknown .refl evaluates (fun _ _ => lookup_insert_eq_some)
            fun _ told => (mem_insert _).mpr (.inr told),
          (mem_insert _).mpr (.inl rfl), evaluates⟩
        change after.stack.dropLast = walk.stack
        rw [show after.stack = walk.stack ++ [name] from top, dropLast_concat]

end ResolveNode

/-! ## Resolution of a plan -/

/-- An error says the truth about what is reachable: a name there is not defined, or
the names are a cycle there. -/
def Plan.Genuine (plan : Plan) (target : Option String) : EvalError → Prop
  | .unknown name => plan.Reachable target name ∧ plan.get name = none
  | .cycle names => (∃ first middle, names = first :: middle ++ [first]) ∧
      names.IsChain plan.DependsOn ∧ ∀ name ∈ names, plan.Reachable target name
  | .duplicate _ => False

section Resolution

variable {blake3 : List UInt8 → DerivationId} {plan : Plan} {target : Option String}

theorem Plan.genuine_of_failsAmong {failure : Dag.Failure String}
    (fails : Dag.FailsAmong plan.get dependencies (calculateDerivationHash blake3) []
      (plan.roots target) failure) : plan.Genuine target (.ofFailure failure) := by
  obtain ⟨_, root, _, isRoots, -, fails⟩ := fails
  have isRoot : root ∈ plan.roots target := isRoots ▸ mem_append_cons_self
  have genuine := fails.genuine (isChain_singleton root)
    (forall_mem_singleton.mpr Relation.ReflTransGen.refl)
  cases failure with
  | undefined => exact ⟨⟨root, isRoot, genuine.1⟩, genuine.2⟩
  | cycle =>
    exact ⟨genuine.1, genuine.2.1, fun name member => ⟨root, isRoot, genuine.2.2 name member⟩⟩

theorem Walk.sound_start : Walk.Sound blake3 plan ⟨∅, [], [], ∅⟩ where
  ordered := .nil
  keys name := by simp
  evaluates := nofun
  stacked := ⟨nodup_nil, nofun⟩
  onStack := rfl
  pending := nofun

theorem ends_roots (blake3 : List UInt8 → DerivationId) (plan : Plan) (target : Option String) :
    Ends ((plan.roots target).mapM (resolveNode blake3 plan (plan.len + 1))) ⟨∅, [], [], ∅⟩
      (fun _ walk => walk.Sound blake3 plan ∧ (∀ name ∈ walk.order, plan.Reachable target name) ∧
        ∀ root ∈ plan.roots target, root ∈ walk.order)
      (fun halt _ => ∃ error, halt = .error error ∧ plan.Genuine target error) := by
  have each (root : String) (_ : root ∈ plan.roots target) (between : Walk)
      (sound : between.Sound blake3 plan)
      (_ : walkMemory.path between = walkMemory.path ⟨∅, [], [], ∅⟩) :
      plan.Answers blake3 walkMemory (Walk.Sound blake3 plan)
        (resolveNode blake3 plan (plan.len + 1) root) between root :=
    answers_resolveNode _ between root sound (by omega)
  apply (Dag.ends_mapM_of_answers each Walk.sound_start
    fun root isRoot lower reaches => (⟨root, isRoot, reaches⟩ : plan.Reachable target lower)).mono
  · rintro _ _ ⟨sound, -, learns, found⟩
    refine ⟨sound, ?_, ?_⟩
    · intro name member
      obtain ⟨id, isId⟩ := Option.isSome_iff_exists.mp
        (lookup_isSome.mpr ((sound.keys name).mpr member))
      rcases learns.added name id isId with nothing | ⟨reachable, -⟩
      · cases nothing
      · exact reachable
    · intro root isRoot
      obtain ⟨_, told, -⟩ := Dag.exists_of_forall₂ found isRoot
      exact (sound.keys root).mp told
  · rintro _ _ ⟨-, _, rfl, fails⟩
    exact ⟨_, rfl, Plan.genuine_of_failsAmong fails⟩

theorem resolve_eq (defined : ∀ name, target = some name → name ∈ plan.derivations) :
    resolve blake3 plan target =
      match (plan.roots target).mapM (resolveNode blake3 plan (plan.len + 1)) ⟨∅, [], [], ∅⟩ with
      | (.ok _, walk) => .ok ⟨walk.ids, walk.order⟩
      | (.error halt, _) => .error halt := by
  cases target with
  | none => rfl
  | some name =>
    rw [resolve, if_pos (defined name rfl)]
    rfl

theorem resolve_cases (blake3 : List UInt8 → DerivationId) (plan : Plan) (target : Option String) :
    (∃ graph, resolve blake3 plan target = .ok graph ∧
      Dag.DependencyOrder plan.get dependencies graph.order ∧
      (∀ name ∈ graph.order, plan.Reachable target name) ∧
      ∀ root ∈ plan.roots target, root ∈ graph.order) ∨
    ∃ error, resolve blake3 plan target = .error (.error error) ∧ plan.Genuine target error := by
  by_cases defined : ∀ name, target = some name → name ∈ plan.derivations
  · have ends := ends_roots blake3 plan target
    rw [Ends] at ends
    rw [resolve_eq defined]
    rcases ran : (plan.roots target).mapM (resolveNode blake3 plan (plan.len + 1))
      ⟨∅, [], [], ∅⟩ with ⟨halt | ids, walk⟩
    · rw [ran] at ends
      obtain ⟨error, rfl, genuine⟩ := ends
      exact .inr ⟨error, rfl, genuine⟩
    · rw [ran] at ends
      obtain ⟨sound, reachable, roots⟩ := ends
      exact .inl ⟨_, rfl, sound.ordered, reachable, roots⟩
  · push Not at defined
    obtain ⟨name, rfl, missing⟩ := defined
    right
    refine ⟨.unknown name, ?_, ?_, lookup_eq_none.mpr missing⟩
    · rw [resolve, if_neg missing]
      rfl
    · exact ⟨name, mem_singleton_self name, .refl⟩

/-- Resolution finds the identity of all that is reachable, or it fails at the first root
that cannot be evaluated. -/
theorem resolve_evaluates : (∃ graph, resolve blake3 plan target = .ok graph ∧
      ∀ name, plan.Reachable target name →
        ∃ id, graph.ids.lookup name = some id ∧ plan.Evaluates blake3 name id) ∨
    ∃ failure, resolve blake3 plan target = .error (.error (.ofFailure failure)) ∧
      Dag.FailsAmong plan.get dependencies (calculateDerivationHash blake3) []
        (plan.roots target) failure := by
  by_cases defined : ∀ name, target = some name → name ∈ plan.derivations
  · have ends := Dag.ends_mapM_of_answers
      (fun root _ between (sound : between.Sound blake3 plan) _ =>
        answers_resolveNode (plan.len + 1) between root sound (by omega)) Walk.sound_start
      fun root isRoot lower reaches => (⟨root, isRoot, reaches⟩ : plan.Reachable target lower)
    revert ends
    rw [Ends, resolve_eq defined]
    rcases (plan.roots target).mapM (resolveNode blake3 plan (plan.len + 1))
      ⟨∅, [], [], ∅⟩ with ⟨halt | ids, walk⟩
    · rintro ⟨-, failure, rfl, fails⟩
      exact .inr ⟨failure, rfl, fails⟩
    · rintro ⟨sound, -, -, found⟩
      refine .inl ⟨_, rfl, ?_⟩
      rintro name ⟨root, isRoot, reaches⟩
      obtain ⟨_, told, -⟩ := Dag.exists_of_forall₂ found isRoot
      have listed := sound.ordered.mem_of_reaches ((sound.keys root).mp told) reaches
      obtain ⟨id, isId⟩ := Option.isSome_iff_exists.mp
        (lookup_isSome.mpr ((sound.keys name).mpr listed))
      exact ⟨id, isId, sound.evaluates name id isId⟩
  · push Not at defined
    obtain ⟨name, rfl, missing⟩ := defined
    refine .inr ⟨.undefined name, ?_, [], name, [], rfl, forall_mem_nil _,
      .undefined not_mem_nil (lookup_eq_none.mpr missing)⟩
    rw [resolve, if_neg missing]
    rfl

theorem Plan.not_genuine (resolvable : ∀ name, plan.Reachable target name →
      plan.get name ≠ none ∧ ¬ Relation.TransGen plan.DependsOn name name) :
    ¬ plan.Genuine target error := by
  cases error with
  | unknown name => exact fun genuine => (resolvable name genuine.1).1 genuine.2
  | cycle =>
    rintro ⟨⟨first, _, rfl⟩, chain, reachable⟩
    apply (resolvable first (reachable first mem_cons_self)).2
    exact Dag.transGen_of_mem_path chain mem_cons_self
  | duplicate => exact id

end Resolution

/-- Resolution succeeds exactly if all that is reachable is defined and on no cycle.
The order lists what is reachable once and dependencies first; an error is genuine. -/
theorem resolve_correct (blake3 : List UInt8 → DerivationId) (plan : Plan)
    (target : Option String) : ((∃ graph, resolve blake3 plan target = .ok graph) ↔
      ∀ name, plan.Reachable target name →
        plan.get name ≠ none ∧ ¬ Relation.TransGen plan.DependsOn name name) ∧
    (∀ graph, resolve blake3 plan target = .ok graph →
      graph.order.Nodup ∧ (∀ name, name ∈ graph.order ↔ plan.Reachable target name) ∧
      ∀ before name after, graph.order = before ++ name :: after →
        ∀ dep, plan.DependsOn name dep → dep ∈ before) ∧
    (∀ halt, resolve blake3 plan target = .error halt →
      ∃ error, halt = .error error ∧ plan.Genuine target error) := by
  rcases resolve_cases blake3 plan target with
    ⟨graph, resolved, ordered, reachable, roots⟩ | ⟨error, failed, genuine⟩
  · have listed (name : String) (isReachable : plan.Reachable target name) :
        name ∈ graph.order := by
      obtain ⟨root, isRoot, reaches⟩ := isReachable
      exact ordered.mem_of_reaches (roots root isRoot) reaches
    rw [resolved]
    refine ⟨⟨fun _ name isReachable => ?_, fun _ => ⟨graph, rfl⟩⟩, ?_, nofun⟩
    · obtain ⟨_, evaluates⟩ :=
        ordered.exists_evaluates (calculateDerivationHash blake3) (listed name isReachable)
      exact ⟨evaluates.entry_ne_none .refl, evaluates.not_cycle⟩
    · rintro _ ⟨⟩
      exact ⟨ordered.nodup, fun name => ⟨reachable name, listed name⟩,
        fun before name after split dep => ordered.child_mem split⟩
  · rw [failed]
    refine ⟨⟨nofun, fun resolvable => absurd genuine (Plan.not_genuine resolvable)⟩, nofun, ?_⟩
    rintro _ ⟨⟩
    exact ⟨error, rfl, genuine⟩

end AustralVM.Eval
