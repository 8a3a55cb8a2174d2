import AustralVM.DerivationPlans
import Mathlib.Data.UInt

/-!
# The memo of evaluations

Evaluations of plans in one process share a table of identities by name.  An
evaluation that finds a name in the table goes no further down.  The table is
not told when a plan is edited, so it is as good as a fresh one only for
derivations that stay the same from call to call.
-/

namespace AustralVM.Eval

open Stoppable Dag List AList
open AustralVM.Eval.Derivation (dependencies)

/-- Answers whether a built cell for an identity exists. -/
abbrev Presence := DerivationId → Bool

structure EvalReport where
  targetId : DerivationId
  resolved : AList fun _ : String => DerivationId
  order : List String
  visited : List String
  sessionHits : List String
  storeHits : List String
  remoteHits : List String

structure MemoTable where
  l1 : AList fun _ : String => DerivationId
  presence : Option Presence
  remote : Option Presence

open MemoTable

namespace MemoTable

def withRemote (presence remote : Option Presence) : MemoTable := ⟨∅, presence, remote⟩

/-- The local store is asked first, and the remote cache only if it has no cell. -/
def checkStore (table : MemoTable) (name : String) (id : DerivationId) (report : EvalReport) :
    EvalReport :=
  if table.presence.any fun contains => contains id then
    { report with storeHits := report.storeHits ++ [name] }
  else if table.remote.any fun contains => contains id then
    { report with remoteHits := report.remoteHits ++ [name] }
  else report

end MemoTable

def zeroId : DerivationId := List.Vector.replicate 32 0

def EvalReport.empty : EvalReport := ⟨zeroId, ∅, [], [], [], [], []⟩

/-- The table and the report in the course of an evaluation, with the names above. -/
structure Session where
  table : MemoTable
  report : EvalReport
  stack : List String

namespace Session

/-- A name that the table answers; it is recorded when it is reached first. -/
def hit (name : String) (id : DerivationId) (session : Session) : Session :=
  let report := { session.report with resolved := session.report.resolved.insert name id }
  if name ∈ session.report.resolved then { session with report := report }
  else
    let report := { report with
      sessionHits := report.sessionHits ++ [name]
      order := report.order ++ [name] }
    { session with report := session.table.checkStore name id report }

def pop (session : Session) : Session := { session with stack := session.stack.dropLast }

def visit (name : String) (id : DerivationId) (session : Session) : Session :=
  let table := { session.table with l1 := session.table.l1.insert name id }
  let report := { session.report with
    visited := session.report.visited ++ [name]
    resolved := session.report.resolved.insert name id
    order :=
      if name ∈ session.report.resolved then session.report.order
      else session.report.order ++ [name] }
  { session with table := table, report := table.checkStore name id report }

end Session

namespace MemoTable

variable (blake3 : List UInt8 → DerivationId) (plan : Plan)

/-- The first argument bounds the depth of the recursion. -/
def resolve : Nat → String → Stoppable Session Halt DerivationId
  | 0 => fun _ => stop .depth
  | depth + 1 => fun name => do
    let session ← get
    match session.table.l1.lookup name with
    | some id =>
      modify (Session.hit name id)
      return id
    | none =>
      if name ∈ session.stack then
        stop (.error (.cycle (loopNames session.stack name)))
      else
        let drv ← ofOption (.error (.unknown name)) (plan.get name)
        set { session with stack := session.stack ++ [name] }
        let depIds ← drv.dependencies.mapM (resolve depth)
        modify Session.pop
        let id := calculateDerivationHash blake3 drv depIds
        modify (Session.visit name id)
        return id

/-- The identity that a report gives for the target, or that of the last root. -/
def targetId (target : Option String) (ids : List DerivationId) (report : EvalReport) :
    Except Halt DerivationId :=
  match target with
  | some name =>
    match report.resolved.lookup name with
    | some id => .ok id
    | none => .error (.panic "root was resolved")
  | none => .ok (ids.getLast?.getD zeroId)

/-- The table keeps what was computed also if the evaluation fails. -/
def evaluate (table : MemoTable) (target : Option String) : Except Halt EvalReport × MemoTable :=
  match target.filter fun name => (plan.get name).isNone with
  | some name => (.error (.error (.unknown name)), table)
  | none =>
    match (plan.roots target).mapM (resolve blake3 plan (plan.len + 1))
        ⟨table, EvalReport.empty, []⟩ with
    | (.ok ids, session) =>
      (do
        let id ← targetId target ids session.report
        return { session.report with targetId := id },
      session.table)
    | (.error halt, session) => (.error halt, session.table)

end MemoTable

/-! ## What the recursion keeps -/

def sessionMemory : Memory Session String DerivationId where
  path := Session.stack
  known session name id := session.table.l1.lookup name = some id
  told session name := name ∈ session.report.resolved

/-- An evaluation of a target, from a table whose names are given: the table is right
for what is reachable, and the report lists names with what is below them, except for
names of the given ones. -/
structure Session.Sound (blake3 : List UInt8 → DerivationId) (plan : Plan) (target : Option String)
    (given : String → Prop) (session : Session) : Prop where
  memo : ∀ name id, plan.Reachable target name → session.table.l1.lookup name = some id →
    plan.Evaluates blake3 name id
  resolved : ∀ name id, session.report.resolved.lookup name = some id →
    plan.Reachable target name ∧ plan.Evaluates blake3 name id
  told : ∀ name ∈ session.table.l1, given name ∨ name ∈ session.report.resolved
  closed : ∀ name ∈ session.report.resolved, given name ∨
    ∀ dep, plan.DependsOn name dep → dep ∈ session.report.resolved
  stacked : plan.Stacked session.stack
  pending : ∀ name ∈ session.stack, name ∉ session.table.l1

@[simp]
theorem MemoTable.resolved_checkStore (table : MemoTable) (name : String) (id : DerivationId)
    (report : EvalReport) : (table.checkStore name id report).resolved = report.resolved := by
  unfold checkStore
  split_ifs <;> rfl

section Session

variable (name : String) (id : DerivationId) (session : Session)

@[simp]
theorem Session.resolved_hit :
    (session.hit name id).report.resolved = session.report.resolved.insert name id := by
  unfold hit
  split_ifs <;> simp

@[simp]
theorem Session.table_hit : (session.hit name id).table = session.table := by
  unfold hit
  split_ifs <;> rfl

@[simp]
theorem Session.stack_hit : (session.hit name id).stack = session.stack := by
  unfold hit
  split_ifs <;> rfl

@[simp]
theorem Session.resolved_visit :
    (session.visit name id).report.resolved = session.report.resolved.insert name id := by
  simp [visit]

end Session

section Resolve

variable {blake3 : List UInt8 → DerivationId} {plan : Plan} {target : Option String}
  {given : String → Prop} {session : Session} {name : String} {id : DerivationId}
  {drv : Derivation}

theorem resolved_insert {resolved : AList fun _ : String => DerivationId}
    (right : ∀ other value, resolved.lookup other = some value →
      plan.Reachable target other ∧ plan.Evaluates blake3 other value)
    (reachable : plan.Reachable target name) (evaluates : plan.Evaluates blake3 name id)
    (other : String) (value : DerivationId)
    (found : (resolved.insert name id).lookup other = some value) :
    plan.Reachable target other ∧ plan.Evaluates blake3 other value := by
  rcases lookup_insert_eq_some.mp found with ⟨rfl, rfl⟩ | ⟨-, found⟩
  · exact ⟨reachable, evaluates⟩
  · exact right other value found

section

variable (sound : session.Sound blake3 plan target given)
include sound

theorem Session.Sound.hit (reachable : plan.Reachable target name)
    (known : session.table.l1.lookup name = some id) :
    (session.hit name id).Sound blake3 plan target given := by
  have grows (other : String) (member : other ∈ session.report.resolved) :
      other ∈ session.report.resolved.insert name id := (mem_insert _).mpr (.inr member)
  constructor
  · rw [table_hit]
    exact sound.memo
  · rw [resolved_hit]
    exact resolved_insert sound.resolved reachable (sound.memo name id reachable known)
  · rw [table_hit, resolved_hit]
    intro other member
    exact (sound.told other member).imp_right (grows other)
  · rw [resolved_hit]
    intro other member
    have before : given other ∨ other ∈ session.report.resolved := by
      rcases (mem_insert _).mp member with rfl | member
      · exact sound.told other (mem_of_lookup_eq_some known)
      · exact .inr member
    rcases before with isGiven | member
    · exact .inl isGiven
    · exact (sound.closed other member).imp_right fun all dep depends =>
        grows dep (all dep depends)
  · rw [stack_hit]
    exact sound.stacked
  · rw [stack_hit, table_hit]
    exact sound.pending

theorem Session.Sound.push (new : name ∉ session.stack) (unknown : name ∉ session.table.l1)
    (isEntry : plan.get name = some drv) :
    Session.Sound blake3 plan target given { session with stack := session.stack ++ [name] } where
  memo := sound.memo
  resolved := sound.resolved
  told := sound.told
  closed := sound.closed
  stacked := sound.stacked.push new isEntry
  pending := by
    intro other member
    rcases mem_append.mp member with earlier | isName
    · exact sound.pending other earlier
    · rw [mem_singleton.mp isName]
      exact unknown

theorem Session.Sound.visit {stack : List String} (top : session.stack = stack ++ [name])
    (reachable : plan.Reachable target name)
    (children : ∀ dep, plan.DependsOn name dep → dep ∈ session.report.resolved)
    (evaluates : plan.Evaluates blake3 name id) :
    (session.pop.visit name id).Sound blake3 plan target given := by
  have grows (other : String) (member : other ∈ session.report.resolved) :
      other ∈ session.report.resolved.insert name id := (mem_insert _).mpr (.inr member)
  have popped : (session.pop.visit name id).stack = stack := by
    change session.stack.dropLast = stack
    rw [top, dropLast_concat]
  have nodup := sound.stacked.nodup
  rw [top, nodup_append_comm, singleton_append, nodup_cons] at nodup
  constructor
  · intro other value isReachable found
    rcases lookup_insert_eq_some.mp found with ⟨rfl, rfl⟩ | ⟨-, found⟩
    · exact evaluates
    · exact sound.memo other value isReachable found
  · rw [resolved_visit]
    exact resolved_insert sound.resolved reachable evaluates
  · rw [resolved_visit]
    intro other member
    rcases (mem_insert _).mp member with rfl | member
    · exact .inr ((mem_insert _).mpr (.inl rfl))
    · exact (sound.told other member).imp_right (grows other)
  · rw [resolved_visit]
    intro other member
    rcases (mem_insert _).mp member with rfl | member
    · exact .inr fun dep depends => grows dep (children dep depends)
    · exact (sound.closed other member).imp_right fun all dep depends =>
        grows dep (all dep depends)
  · rw [popped]
    exact ⟨nodup.2, fun other member => sound.stacked.defined other
      (top ▸ mem_append_left _ member)⟩
  · rw [popped]
    intro other member again
    rcases (mem_insert _).mp again with rfl | again
    · exact nodup.1 member
    · exact sound.pending other (top ▸ mem_append_left _ member) again

end

theorem learns_hit : Learns plan.get dependencies (calculateDerivationHash blake3) sessionMemory
      below session (session.hit name id) := by
  constructor
  · intro other value known
    change (session.hit name id).table.l1.lookup other = some value
    rw [Session.table_hit]
    exact known
  · intro other value known
    change (session.hit name id).table.l1.lookup other = some value at known
    rw [Session.table_hit] at known
    exact .inl known
  · intro other told
    change other ∈ (session.hit name id).report.resolved
    rw [Session.resolved_hit]
    exact (mem_insert _).mpr (.inr told)

theorem answers_resolve (depth : Nat) (session : Session) (name : String)
    (sound : session.Sound blake3 plan target given) (reachable : plan.Reachable target name)
    (enough : plan.len < depth + session.stack.length) :
    plan.Answers blake3 sessionMemory (Session.Sound blake3 plan target given)
      (MemoTable.resolve blake3 plan depth name) session name := by
  induction depth generalizing session name with
  | zero =>
    have := sound.stacked.length_le
    omega
  | succ _ ih =>
    rw [Plan.Answers, Answers, MemoTable.resolve]
    apply ends_get_bind
    cases known : session.table.l1.lookup name with
    | some id =>
      apply ends_modify_bind
      refine ends_pure ⟨sound.hit reachable known, session.stack_hit name id, learns_hit, ?_,
        sound.memo name id reachable known⟩
      change name ∈ (session.hit name id).report.resolved
      rw [Session.resolved_hit]
      exact (mem_insert _).mpr (.inl rfl)
    | none =>
      change Ends (if name ∈ session.stack then _ else _) session _ _
      by_cases again : name ∈ session.stack
      · rw [if_pos again]
        exact ends_stop ⟨.refl session, .cycle _, by rw [loopNames_of_mem again]; rfl,
          .cycle again⟩
      rw [if_neg again]
      cases isEntry : plan.get name with
      | none => exact ends_stop ⟨.refl session, .undefined name, rfl, .undefined again isEntry⟩
      | some drv =>
        apply ends_some_bind
        apply ends_set_bind
        have pushed := sound.push again (lookup_eq_none.mp known) isEntry
        have searched := ends_mapM_next session pushed again isEntry rfl rfl rfl
          fun dep member between soundBetween isPath => ih between dep soundBetween
            (reachable.tail (edge_iff.mpr ⟨drv, isEntry, member⟩))
            (Plan.len_lt_below enough isPath)
        apply searched.bind
        rintro _ after ⟨soundAfter, top, learns, children, evaluates⟩
        apply ends_modify_bind
        apply ends_modify_bind
        have isTop : name ∈ after.stack := by
          rw [show after.stack = session.stack ++ [name] from top]
          exact mem_append_right _ (mem_singleton_self name)
        have unknown (id : DerivationId) : ¬ after.table.l1.lookup name = some id := fun isId =>
          soundAfter.pending name isTop (mem_of_lookup_eq_some isId)
        have resolved (dep : String) (depends : plan.DependsOn name dep) :
            dep ∈ after.report.resolved := by
          obtain ⟨_, isFound, member⟩ := edge_iff.mp depends
          rw [isEntry] at isFound
          cases isFound
          obtain ⟨_, told, -⟩ := exists_of_forall₂ children member
          exact told
        refine ends_pure ⟨soundAfter.visit top reachable resolved evaluates, ?_,
          learns.add unknown .refl evaluates (fun _ _ => lookup_insert_eq_some) ?_, ?_,
          evaluates⟩
        · change after.stack.dropLast = session.stack
          rw [show after.stack = session.stack ++ [name] from top, dropLast_concat]
        · intro other told
          change other ∈ (Session.visit _ _ _).report.resolved
          rw [Session.resolved_visit]
          exact (mem_insert _).mpr (.inr told)
        · change name ∈ (Session.visit _ _ _).report.resolved
          rw [Session.resolved_visit]
          exact (mem_insert _).mpr (.inl rfl)

end Resolve

/-! ## One evaluation -/

/-- The table is right for what an evaluation reaches. -/
def MemoTable.RightFor (blake3 : List UInt8 → DerivationId) (plan : Plan) (target : Option String)
    (table : MemoTable) : Prop :=
  ∀ name id, plan.Reachable target name → table.l1.lookup name = some id →
    plan.Evaluates blake3 name id

/-- A report gives the identities of the target and of names that are reachable. -/
structure EvalReport.RightFor (blake3 : List UInt8 → DerivationId) (plan : Plan)
    (target : Option String) (report : EvalReport) : Prop where
  isTarget : ∃ ids, Forall₂ (plan.Evaluates blake3) (plan.roots target) ids ∧
    report.targetId = ids.getLast?.getD zeroId
  resolved : ∀ name id, report.resolved.lookup name = some id →
    plan.Reachable target name ∧ plan.Evaluates blake3 name id

section Evaluate

variable {blake3 : List UInt8 → DerivationId} {plan : Plan} {target : Option String}
  {table : MemoTable}

theorem ends_evaluate (right : table.RightFor blake3 plan target) :
    Ends ((plan.roots target).mapM (MemoTable.resolve blake3 plan (plan.len + 1)))
      ⟨table, EvalReport.empty, []⟩ (fun ids session =>
        session.Sound blake3 plan target (fun name => name ∈ table.l1) ∧
        Learns plan.get dependencies (calculateDerivationHash blake3) sessionMemory
          (plan.Reachable target) ⟨table, EvalReport.empty, []⟩ session ∧
        Found plan.get dependencies (calculateDerivationHash blake3) sessionMemory
          session (plan.roots target) ids) (fun halt session =>
        Learns plan.get dependencies (calculateDerivationHash blake3) sessionMemory
          (plan.Reachable target) ⟨table, EvalReport.empty, []⟩ session ∧
        ∃ failure, halt = .error (.ofFailure failure) ∧
          FailsAmong plan.get dependencies (calculateDerivationHash blake3) []
            (plan.roots target) failure) := by
  have start : Session.Sound blake3 plan target (fun name => name ∈ table.l1)
      ⟨table, EvalReport.empty, []⟩ :=
    { memo := right, resolved := nofun, told := fun _ member => .inl member, closed := nofun,
      stacked := ⟨nodup_nil, nofun⟩, pending := nofun }
  have each (root : String) (isRoot : root ∈ plan.roots target) (between : Session)
      (sound : between.Sound blake3 plan target fun name => name ∈ table.l1)
      (_ : sessionMemory.path between = sessionMemory.path ⟨table, EvalReport.empty, []⟩) :
      plan.Answers blake3 sessionMemory
        (Session.Sound blake3 plan target fun name => name ∈ table.l1)
        (MemoTable.resolve blake3 plan (plan.len + 1) root) between root :=
    answers_resolve _ between root sound ⟨root, isRoot, .refl⟩ (by omega)
  apply (ends_mapM_of_answers each start
    fun root isRoot lower reaches => (⟨root, isRoot, reaches⟩ : plan.Reachable target lower)).mono
  · rintro _ _ ⟨sound, -, learns, found⟩
    exact ⟨sound, learns, found⟩
  · exact fun halt session stopped => stopped

theorem targetId_eq (sound : session.Sound blake3 plan target given)
    (found : Found plan.get dependencies (calculateDerivationHash blake3)
      sessionMemory session (plan.roots target) ids) :
    targetId target ids session.report = .ok (ids.getLast?.getD zeroId) := by
  cases target with
  | none => rfl
  | some name =>
    cases found with
    | cons both rest =>
      cases rest
      obtain ⟨id, isId⟩ := Option.isSome_iff_exists.mp (lookup_isSome.mpr both.1)
      rw [targetId, isId, (sound.resolved name id isId).2.unique both.2]
      rfl

theorem mem_resolved_of_reachable {session : Session}
    (sound : session.Sound blake3 plan target given) (nothing : ∀ name, ¬ given name)
    (roots : ∀ root ∈ plan.roots target, root ∈ session.report.resolved)
    (reachable : plan.Reachable target name) : name ∈ session.report.resolved := by
  obtain ⟨root, isRoot, reaches⟩ := reachable
  induction reaches with
  | refl => exact roots root isRoot
  | tail _ depends ih => exact (sound.closed _ ih).resolve_left (nothing _) _ depends

theorem lookup_l1_evaluate (right : table.RightFor blake3 plan target) {id : DerivationId}
    (found : (evaluate blake3 plan table target).2.l1.lookup name = some id) :
    table.l1.lookup name = some id ∨ plan.Reachable target name ∧ plan.Evaluates blake3 name id := by
  have ends := ends_evaluate right
  rw [Ends] at ends
  rw [evaluate] at found
  cases missing : target.filter fun name => (plan.get name).isNone with
  | some =>
    rw [missing] at found
    exact .inl found
  | none =>
    rw [missing] at found
    rcases ran : (plan.roots target).mapM (MemoTable.resolve blake3 plan (plan.len + 1))
      ⟨table, EvalReport.empty, []⟩ with ⟨halt | ids, session⟩
    · rw [ran] at ends
      simp only [ran] at found
      exact ends.1.added name id found
    · rw [ran] at ends
      simp only [ran] at found
      exact ends.2.1.added name id found

/-- An evaluation with a right table has a right report, which is complete if the table
was empty, or it fails at the first root that cannot be evaluated. -/
theorem evaluate_cases (right : table.RightFor blake3 plan target) :
    (∃ report, (evaluate blake3 plan table target).1 = .ok report ∧
      report.RightFor blake3 plan target ∧
      ((∀ name, name ∉ table.l1) → ∀ name, plan.Reachable target name → name ∈ report.resolved)) ∨
    ∃ failure, (evaluate blake3 plan table target).1 = .error (.error (.ofFailure failure)) ∧
      FailsAmong plan.get dependencies (calculateDerivationHash blake3) []
        (plan.roots target) failure := by
  have ends := ends_evaluate right
  rw [Ends] at ends
  rw [evaluate]
  cases missing : target.filter fun name => (plan.get name).isNone with
  | some name =>
    obtain ⟨rfl, isNone⟩ := Option.filter_eq_some_iff.mp missing
    exact .inr ⟨.undefined name, rfl, [], name, [], rfl, forall_mem_nil _,
      .undefined not_mem_nil (Option.isNone_iff_eq_none.mp isNone)⟩
  | none =>
    rcases ran : (plan.roots target).mapM (MemoTable.resolve blake3 plan (plan.len + 1))
      ⟨table, EvalReport.empty, []⟩ with ⟨halt | ids, session⟩
    · rw [ran] at ends
      obtain ⟨-, failure, rfl, fails⟩ := ends
      exact .inr ⟨failure, rfl, fails⟩
    · rw [ran] at ends
      obtain ⟨sound, -, found⟩ := ends
      have isTarget := targetId_eq sound found
      left
      refine ⟨{ session.report with targetId := ids.getLast?.getD zeroId }, ?_,
        ⟨⟨ids, ?_, rfl⟩, sound.resolved⟩, ?_⟩
      · simp only [isTarget]
        rfl
      · exact found.imp fun _ _ both => both.2
      · intro nothing _ reachable
        apply mem_resolved_of_reachable sound nothing _ reachable
        intro _ isRoot
        obtain ⟨_, told, -⟩ := exists_of_forall₂ found isRoot
        exact told

end Evaluate

/-! ## Evaluations one after the other -/

structure Call where
  plan : Plan
  target : Option String

def MemoTable.evaluateAll (blake3 : List UInt8 → DerivationId) (table : MemoTable) :
    List Call → List (Except Halt EvalReport)
  | [] => []
  | call :: calls =>
    let (result, table) := evaluate blake3 call.plan table call.target
    result :: evaluateAll blake3 table calls

/-- The result reports the identities that the other one reports, or the same error. -/
def SameIds : Except Halt EvalReport → Except Halt EvalReport → Prop
  | .ok report, .ok fresh => report.targetId = fresh.targetId ∧
      ∀ name id, report.resolved.lookup name = some id → fresh.resolved.lookup name = some id
  | .error halt, .error halt' => ∃ error, halt = .error error ∧ halt' = .error error
  | _, _ => False

/-- A derivation that an earlier call had for a name is still there for a later call, if
both reach the name. -/
def Call.Unedited (earlier later : Call) : Prop :=
  ∀ name drv, earlier.plan.Reachable earlier.target name →
    later.plan.Reachable later.target name →
    earlier.plan.get name = some drv → later.plan.get name = some drv

section Runs

variable {blake3 : List UInt8 → DerivationId}

theorem ids_unique {plan : Plan} (first : Forall₂ (plan.Evaluates blake3) names ids)
    (second : Forall₂ (plan.Evaluates blake3) names ids') : ids = ids' := by
  induction first generalizing ids' with
  | nil =>
    cases second
    rfl
  | cons head _ ih =>
    cases second with
    | cons head' tail' => rw [head.unique head', ih tail']

theorem sameIds_evaluate {plan : Plan} (right : table.RightFor blake3 plan target)
    (empty : fresh.l1 = ∅) : SameIds (evaluate blake3 plan table target).1
      (evaluate blake3 plan fresh target).1 := by
  have nothing (name : String) : name ∉ fresh.l1 := by
    rw [empty]
    exact notMem_empty name
  have freshRight : fresh.RightFor blake3 plan target := fun name id _ found =>
    absurd (mem_of_lookup_eq_some found) (nothing name)
  rcases evaluate_cases right with ⟨report, isReport, reports, -⟩ | ⟨failure, isFailure, fails⟩ <;>
    rcases evaluate_cases freshRight with
      ⟨report', isReport', reports', complete⟩ | ⟨failure', isFailure', fails'⟩
  · rw [isReport, isReport']
    obtain ⟨_, evaluate, isTarget⟩ := reports.isTarget
    obtain ⟨_, evaluate', isTarget'⟩ := reports'.isTarget
    refine ⟨by rw [isTarget, isTarget', ids_unique evaluate evaluate'], ?_⟩
    intro name id found
    obtain ⟨reachable, evaluates⟩ := reports.resolved name id found
    obtain ⟨id', found'⟩ := Option.isSome_iff_exists.mp
      (lookup_isSome.mpr (complete nothing name reachable))
    rw [found', (reports'.resolved name id' found').2.unique evaluates]
  · obtain ⟨_, evaluate, -⟩ := reports.isTarget
    exact absurd (fun name member => exists_of_forall₂ evaluate member) fails'.not_evaluates
  · obtain ⟨_, evaluate, -⟩ := reports'.isTarget
    exact absurd (fun name member => exists_of_forall₂ evaluate member) fails.not_evaluates
  · rw [isFailure, isFailure', fails.unique fails']
    exact ⟨_, rfl, rfl⟩

/-- The entries of a table come from calls that reached them. -/
def MemoTable.From (blake3 : List UInt8 → DerivationId) (done : List Call) (table : MemoTable) :
    Prop :=
  ∀ name id, table.l1.lookup name = some id → ∃ call ∈ done,
    call.plan.Reachable call.target name ∧ call.plan.Evaluates blake3 name id

theorem Plan.Reachable.trans {plan : Plan} (reachable : plan.Reachable target name)
    (reaches : Reaches plan.get dependencies name below) : plan.Reachable target below := by
  obtain ⟨root, isRoot, toName⟩ := reachable
  exact ⟨root, isRoot, toName.trans reaches⟩

theorem MemoTable.From.rightFor {done : List Call} {table : MemoTable}
    (isFrom : table.From blake3 done) (unedited : ∀ earlier ∈ done, earlier.Unedited call) :
    table.RightFor blake3 call.plan call.target := by
  intro name id reachable found
  obtain ⟨earlier, member, reachableBefore, evaluates⟩ := isFrom name id found
  apply evaluates.of_same_entries
  intro below drv reachesBefore reaches
  exact unedited earlier member below drv (reachableBefore.trans reachesBefore)
    (reachable.trans reaches)

theorem MemoTable.From.evaluate (isFrom : table.From blake3 done)
    (right : table.RightFor blake3 call.plan call.target) :
    (evaluate blake3 call.plan table call.target).2.From blake3 (done ++ [call]) := by
  intro name id found
  rcases lookup_l1_evaluate right found with before | new
  · obtain ⟨earlier, member, facts⟩ := isFrom name id before
    exact ⟨earlier, mem_append_left _ member, facts⟩
  · exact ⟨call, mem_append_right _ (mem_singleton_self call), new⟩

theorem forall₂_evaluateAll {table fresh : MemoTable} (isFrom : table.From blake3 done)
    (empty : fresh.l1 = ∅) (unedited : (done ++ calls).Pairwise Call.Unedited) :
    Forall₂ SameIds (table.evaluateAll blake3 calls)
      (calls.map fun call => (evaluate blake3 call.plan fresh call.target).1) := by
  induction calls generalizing done table with
  | nil => exact .nil
  | cons call _ ih =>
    have before (earlier : Call) (member : earlier ∈ done) : earlier.Unedited call :=
      (pairwise_append.mp unedited).2.2 earlier member call mem_cons_self
    have right := isFrom.rightFor before
    rw [append_cons] at unedited
    exact .cons (sameIds_evaluate right empty) (ih (isFrom.evaluate right) unedited)

end Runs

/-- Calls on one table report the identities and the errors of fresh tables, as long as
derivations that were reached are not edited. -/
theorem evaluateAll_sameIds (blake3 : List UInt8 → DerivationId) (presence remote : Option Presence)
    (calls : List Call) (unedited : calls.Pairwise Call.Unedited) :
    Forall₂ SameIds ((withRemote presence remote).evaluateAll blake3 calls)
      (calls.map fun call => (evaluate blake3 call.plan
        (withRemote presence remote) call.target).1) := by
  have start : (withRemote presence remote).From blake3 [] := nofun
  exact forall₂_evaluateAll start rfl unedited

/-! ## An edited plan -/

def basePlan (version : String) : Plan :=
  ⟨singleton "base" ⟨"base", version, "stdenv.build", [], [], []⟩⟩

def sumHash (data : List UInt8) : DerivationId := List.Vector.replicate 32 data.sum

theorem evaluateAll_sameIds_at_basePlan : Forall₂ SameIds
      ((withRemote none none).evaluateAll sumHash
        [⟨basePlan "1", some "base"⟩, ⟨basePlan "1", none⟩])
      ([⟨basePlan "1", some "base"⟩, ⟨basePlan "1", none⟩].map fun call : Call =>
        (evaluate sumHash call.plan (withRemote none none) call.target).1) := by
  apply evaluateAll_sameIds
  rw [pairwise_pair]
  exact fun name drv _ _ isEntry => isEntry

theorem SameIds.targetId_eq (same : SameIds result result') :
    result.toOption.map EvalReport.targetId = result'.toOption.map EvalReport.targetId := by
  cases result with
  | error =>
    cases result' with
    | error => rfl
    | ok => cases same
  | ok =>
    cases result' with
    | error => cases same
    | ok => exact congrArg some same.1

/-- The version of a derivation is edited between two calls. -/
theorem edited_plan_has_old_id : ¬ Forall₂ SameIds ((withRemote none none).evaluateAll sumHash
        [⟨basePlan "1", some "base"⟩, ⟨basePlan "2", some "base"⟩])
      ([⟨basePlan "1", some "base"⟩, ⟨basePlan "2", some "base"⟩].map fun call : Call =>
        (evaluate sumHash call.plan (withRemote none none) call.target).1) := by
  intro same
  have ids := rel_map (fun (result result' : Except Halt EvalReport)
    (same : SameIds result result') => same.targetId_eq) same
  rw [forall₂_eq_eq_eq] at ids
  revert ids
  decide +kernel

/-! ## Plain resolution -/

section Resolution

variable (blake3 : List UInt8 → DerivationId) (plan : Plan)

/-- The result reports identities that plain resolution finds, or it has its error. -/
def Agrees (target : Option String) : Except Halt EvalReport → Prop
  | .ok report => ∃ graph, Eval.resolve blake3 plan target = .ok graph ∧ ∀ name id,
      target = some name ∧ id = report.targetId ∨ report.resolved.lookup name = some id →
        graph.ids.lookup name = some id
  | .error halt => Eval.resolve blake3 plan target = .error halt

theorem agrees_evaluate (right : table.RightFor blake3 plan target) :
    Agrees blake3 plan target (evaluate blake3 plan table target).1 := by
  rcases evaluate_cases right with ⟨report, isReport, reports, -⟩ | ⟨failure, isFailure, fails⟩ <;>
    rcases @resolve_evaluates blake3 plan target with
      ⟨graph, isGraph, finds⟩ | ⟨failure', isFailure', fails'⟩
  · rw [isReport]
    refine ⟨graph, isGraph, fun name id reported => ?_⟩
    have ⟨reachable, evaluates⟩ : plan.Reachable target name ∧ plan.Evaluates blake3 name id := by
      rcases reported with ⟨rfl, rfl⟩ | found
      · obtain ⟨_, _ | ⟨evaluates, ⟨⟩⟩, isTarget⟩ := reports.isTarget
        exact ⟨⟨name, mem_singleton_self name, .refl⟩, isTarget ▸ evaluates⟩
      · exact reports.resolved name id found
    obtain ⟨_, isId, evaluates'⟩ := finds name reachable
    rw [isId, evaluates'.unique evaluates]
  · obtain ⟨_, evaluate, -⟩ := reports.isTarget
    exact absurd (fun name member => exists_of_forall₂ evaluate member) fails'.not_evaluates
  · refine absurd (fun root isRoot => ?_) fails.not_evaluates
    obtain ⟨id, -, evaluates⟩ := finds root ⟨root, isRoot, .refl⟩
    exact ⟨id, evaluates⟩
  · rw [isFailure, fails.unique fails']
    exact isFailure'

/-- Calls for one plan on one table agree with plain resolution, whatever their targets. -/
theorem evaluateAll_agrees (presence remote : Option Presence) (targets : List (Option String)) :
    Forall₂ (Agrees blake3 plan) targets
      ((withRemote presence remote).evaluateAll blake3 (targets.map (Call.mk plan))) := by
  have run (table : MemoTable) (right : ∀ target, table.RightFor blake3 plan target) :
      Forall₂ (Agrees blake3 plan) targets
        (table.evaluateAll blake3 (targets.map (Call.mk plan))) := by
    induction targets generalizing table with
    | nil => exact .nil
    | cons target _ ih =>
      refine .cons (agrees_evaluate blake3 plan (right target)) (ih _ ?_)
      intro other name id reachable found
      rcases lookup_l1_evaluate (right target) found with before | new
      · exact right other name id reachable before
      · exact new.2
  exact run _ nofun

end Resolution

end AustralVM.Eval
