import AustralVM.LinearitySoundness
import Mathlib.Data.List.Chain

/-!
# What the arms of a case leave behind

After a `case` the checker goes on with the table of the first arm, so every arm
should leave each linear variable in the same state.  The tables are compared in
disjoint pairs.  The comparisons that are left out are those of the case without
its first arm: if the checker accepts that one too, all arms agree.
-/

namespace AustralVM

open Check List

variable {tbl tbl' : StateTbl} {depth : Nat} {state state' : CheckState}

/-! ## Rules for the walk -/

/-- A relation between computations of the checker that its single steps keep. -/
structure StepRule (Related : ∀ {α : Type}, Check α → Check α → Prop) : Prop where
  pure : ∀ {α : Type} (value : α), Related (Pure.pure value) (Pure.pure value)
  lift : ∀ {α : Type} (computation : Comp α), Related (liftM computation) (liftM computation)
  bind : ∀ {α β : Type} {check check' : Check α} {next next' : α → Check β},
    Related check check' → (∀ value, Related (next value) (next' value)) →
      Related (check >>= next) (check' >>= next')
  record : ∀ change : Ledger → Ledger,
    Related (modify fun state => { state with ledger := change state.ledger })
      (modify fun state => { state with ledger := change state.ledger })

/-- A relation that the walk over a statement keeps too, whatever numbers the
branches and arms have. -/
structure WalkRule (Related : ∀ {α : Type}, Check α → Check α → Prop) : Prop
    extends StepRule Related where
  branch : ∀ {α : Type} {next next' : Nat → Check α},
    (∀ id id', Related (next id) (next' id')) → Related (nextBranch >>= next) (nextBranch >>= next')
  withArm : ∀ {α : Type} {walk : Check α}, Related walk walk →
    ∀ id arm id' arm', Related (withArm id arm walk) (withArm id' arm' walk)
  scope : ∀ {walkBody : StateTbl → Check StateTbl}, (∀ tbl, Related (walkBody tbl) (walkBody tbl)) →
    ∀ tbl depth row rename refType event during afterwards,
      Related (checkBorrowScope tbl depth row rename refType event during afterwards walkBody)
        (checkBorrowScope tbl depth row rename refType event during afterwards walkBody)

namespace StepRule

variable {Related : ∀ {α : Type}, Check α → Check α → Prop} (rule : StepRule Related)

theorem ite (_ : StepRule Related) [Decidable condition] {first second : Check α}
    (ofFirst : Related first first) (ofSecond : Related second second) :
    Related (if condition then first else second) (if condition then first else second) := by
  split
  · exact ofFirst
  · exact ofSecond

include rule

theorem foldlM {step : β → α → Check β}
    (each : ∀ acc value, Related (step acc value) (step acc value)) (values : List α) (start : β) :
    Related (values.foldlM step start) (values.foldlM step start) := by
  induction values generalizing start with
  | nil => exact rule.pure start
  | cons value _ ih =>
    rw [foldlM_cons]
    exact rule.bind (each start value) ih

theorem ledgerNote (name : Identifier) (ty : Ty) (depth : Nat) (event : LedgerEvent) :
    Related (ledgerNote name ty depth event) (ledgerNote name ty depth event) :=
  rule.bind (rule.lift _) fun _ =>
    rule.ite (rule.record fun ledger => ledger.record name ty depth event) (rule.pure ())

theorem addEntry (tbl : StateTbl) (name : Identifier) (ty : Ty) (depth : Nat) :
    Related (tbl.addEntry name ty depth) (tbl.addEntry name ty depth) := by
  unfold StateTbl.addEntry
  split
  · exact rule.bind (rule.ledgerNote name ty depth .acquire) fun _ => rule.pure _
  · exact rule.lift _

theorem addBindingEntries (tbl : StateTbl) (depth : Nat) (bindings : List TypedBinding) :
    Related (addBindingEntries tbl depth bindings) (addBindingEntries tbl depth bindings) := by
  apply rule.foldlM
  exact fun tbl binding => rule.addEntry tbl binding.rename binding.ty depth

theorem removeEntry (tbl : StateTbl) (name : Identifier) :
    Related (tbl.removeEntry name) (tbl.removeEntry name) := by
  unfold StateTbl.removeEntry
  split
  · exact rule.lift _
  · apply rule.ite
    · exact rule.ite (rule.bind (rule.ledgerNote _ _ _ _) fun _ => rule.pure _) (rule.pure _)
    · exact rule.bind (rule.lift _) fun _ => rule.ite (rule.lift _) (rule.pure _)

theorem removeEntries (names : List Identifier) (tbl : StateTbl) :
    Related (tbl.removeEntries names) (tbl.removeEntries names) := by
  induction names generalizing tbl with
  | nil => exact rule.pure tbl
  | cons name _ ih => exact rule.bind (rule.removeEntry tbl name) ih

theorem consumeOnce (tbl : StateTbl) (depth : Nat) (name : Identifier) (ty : Ty) :
    Related (consumeOnce tbl depth name ty) (consumeOnce tbl depth name ty) := by
  refine rule.bind (rule.ledgerNote name ty depth .consume) fun _ =>
    rule.bind (rule.lift _) fun _ => ?_
  have marked : ∀ tbl : StateTbl, Related (do
      let row ← tbl.getEntryOrFail name
      if depth ≠ row.depth then
        if ← linearIsh ty then tbl.markPending name else return tbl
      else
        return tbl) _ := fun tbl => rule.bind (rule.lift _) fun row =>
    rule.ite (rule.bind (rule.lift _) fun _ => rule.ite (rule.lift _) (rule.pure tbl))
      (rule.pure tbl)
  exact rule.ite (rule.bind (rule.lift _) marked) (rule.bind (rule.pure tbl) marked)

theorem checkExpr (tbl : StateTbl) (depth : Nat) (expr : TExpr) :
    Related (checkExpr tbl depth expr) (checkExpr tbl depth expr) := by
  apply rule.foldlM
  intro tbl var
  refine rule.bind (rule.lift _) fun row => ?_
  split
  · exact rule.pure tbl
  · exact rule.consumeOnce tbl depth var.1 var.2
  all_goals exact rule.bind (rule.lift _) fun _ => rule.pure tbl

theorem reassign (tbl : StateTbl) (depth : Nat) (row : TableRow) :
    Related (reassign tbl depth row) (reassign tbl depth row) := by
  apply rule.ite
  · refine rule.bind (rule.ledgerNote row.name row.ty depth .reacquire) fun _ =>
      rule.bind (rule.lift _) fun tbl => ?_
    exact rule.ite (rule.lift _) (rule.pure tbl)
  · exact rule.bind (rule.lift _) fun _ => rule.ite (rule.lift _) (rule.pure tbl)

end StepRule

namespace WalkRule

variable {Related : ∀ {α : Type}, Check α → Check α → Prop} (rule : WalkRule Related)
include rule

theorem checkWhens
    (bodies : ∀ whn ∈ whens, ∀ tbl,
      Related (checkStmt tbl depth whn.body) (checkStmt tbl depth whn.body))
    (tbl : StateTbl) (id arm id' arm' : Nat) :
    Related (checkWhens tbl depth id arm whens) (checkWhens tbl depth id' arm' whens) := by
  induction whens generalizing arm arm' with
  | nil => exact rule.pure []
  | cons whn _ ih =>
    obtain ⟨ofBody, ofOthers⟩ := forall_mem_cons.mp bodies
    rw [AustralVM.checkWhens, AustralVM.checkWhens]
    have ofArm : Related (checkWhen tbl depth whn) (checkWhen tbl depth whn) := by
      obtain ⟨_, bindings, _⟩ := whn
      rw [checkWhen]
      refine rule.bind (rule.addBindingEntries tbl depth bindings) fun tbl => ?_
      exact rule.bind (ofBody tbl) fun tbl => rule.removeEntries _ tbl
    refine rule.bind (rule.withArm ofArm id arm id' arm') fun first => ?_
    exact rule.bind (ih ofOthers (arm + 1) (arm' + 1)) fun rest => rule.pure _

theorem checkStmt (stmt : TStmt) (tbl : StateTbl) (depth : Nat) :
    Related (checkStmt tbl depth stmt) (checkStmt tbl depth stmt) := by
  induction stmt generalizing tbl depth with rw [AustralVM.checkStmt]
  | skip => exact rule.pure tbl
  | letStmt _ name ty _ ih =>
    refine rule.bind (rule.addEntry tbl name ty depth) fun tbl => ?_
    exact rule.bind (ih tbl depth) fun tbl => rule.removeEntry tbl name
  | letTmp name ty value =>
    exact rule.bind (rule.addEntry tbl name ty depth) fun tbl => rule.checkExpr tbl depth value
  | assignTmp _ value =>
    refine rule.bind (rule.checkExpr tbl depth value) fun tbl => ?_
    split
    · exact rule.reassign tbl depth _
    · exact rule.pure tbl
  | destructure _ bindings value _ ih =>
    refine rule.bind (rule.checkExpr tbl depth value) fun tbl => ?_
    refine rule.bind (rule.addBindingEntries tbl depth bindings) fun tbl => ?_
    exact rule.bind (ih tbl depth) fun tbl => rule.removeEntries _ tbl
  | assign lvalue value =>
    exact rule.bind (rule.checkExpr tbl depth lvalue) fun tbl => rule.checkExpr tbl depth value
  | assignVar _ value =>
    refine rule.bind (rule.checkExpr tbl depth value) fun tbl => ?_
    exact rule.bind (rule.lift _) fun row => rule.reassign tbl depth row
  | initialAssign _ value | discarding value => exact rule.checkExpr tbl depth value
  | ifStmt condition _ _ ofConsequent ofAlternative =>
    refine rule.bind (rule.checkExpr tbl depth condition) fun tbl => rule.branch fun id id' => ?_
    refine rule.bind (rule.withArm (ofConsequent tbl depth) id 0 id' 0) fun trueTbl => ?_
    refine rule.bind (rule.withArm (ofAlternative tbl depth) id 1 id' 1) fun falseTbl => ?_
    exact rule.bind (rule.lift _) fun _ => rule.pure trueTbl
  | caseStmt scrutinee _ _ ih =>
    refine rule.bind (rule.checkExpr tbl depth scrutinee) fun tbl => rule.branch fun id id' => ?_
    have arms := rule.checkWhens (fun whn member tbl => ih whn member tbl depth) tbl id 0 id' 0
    exact rule.bind arms fun tbls => rule.bind (rule.lift _) fun _ => rule.pure _
  | whileStmt condition _ ih =>
    refine rule.bind (rule.checkExpr tbl depth condition) fun tbl => ?_
    exact rule.bind (ih tbl (depth + 1)) fun _ => rule.lift _
  | forStmt _ start final _ ih =>
    refine rule.bind (rule.checkExpr tbl depth start) fun tbl => ?_
    refine rule.bind (rule.checkExpr tbl depth final) fun tbl => ?_
    exact rule.bind (ih tbl (depth + 1)) fun _ => rule.lift _
  | borrow _ rename _ _ refType _ _ ih =>
    refine rule.bind (rule.lift _) fun row => ?_
    have scope := rule.scope (fun tbl => ih tbl depth) tbl depth row rename refType
    exact rule.ite (scope _ _ _) (rule.ite (scope _ _ _) (rule.lift _))
  | block _ _ ofFirst ofSecond =>
    exact rule.bind (ofFirst tbl depth) fun tbl => ofSecond tbl depth
  | returnStmt value =>
    refine rule.bind (rule.checkExpr tbl depth value) fun tbl => ?_
    exact rule.bind (rule.lift _) fun _ => rule.pure tbl

end WalkRule

/-- What the first computation results in, from any state of the check, the second
does too. -/
def SameResult {α : Type} (check check' : Check α) : Prop :=
  ∀ ⦃state result state'⦄, check state = .ok (result, state') →
    ∀ other, ∃ other', check' other = .ok (result, other')

theorem sameResult_steps : StepRule SameResult where
  pure _ := by
    intro _ _ _ checked other
    exact ⟨other, by rw [← (pure_eq_ok.mp checked).1]; rfl⟩
  lift _ := by
    intro _ _ _ lifted other
    exact ⟨other, lift_eq_ok.mpr ⟨(lift_eq_ok.mp lifted).1, rfl⟩⟩
  bind first second := by
    intro _ _ _ checked other
    obtain ⟨value, _, firstEq, secondEq⟩ := bind_eq_ok.mp checked
    obtain ⟨between, firstEq'⟩ := first firstEq other
    obtain ⟨other', secondEq'⟩ := second value secondEq between
    exact ⟨other', bind_eq_ok.mpr ⟨value, between, firstEq', secondEq'⟩⟩
  record _ _ _ _ _ other := ⟨_, rfl⟩

theorem borrowPop_eq_ok (name : Identifier) (state : CheckState) :
    ∃ outermost state', borrowPop name state = .ok (outermost, state') := by
  cases found : state.borrowDepth.lookup name with
  | none => exact ⟨true, state, bind_eq_ok.mpr ⟨_, _, rfl, by simp only [found]; rfl⟩⟩
  | some count =>
    by_cases nested : 1 < count
    · exact ⟨false, _, bind_eq_ok.mpr ⟨_, _, rfl, by simp only [found, if_pos nested]; rfl⟩⟩
    · exact ⟨true, _, bind_eq_ok.mpr ⟨_, _, rfl, by simp only [found, if_neg nested]; rfl⟩⟩

/-- Only the universe of its type can keep a borrow from being noted, so the end of
one whose begin was noted can be noted too. -/
theorem endBorrow_of_ledgerNote
    (noted : ledgerNote row.name row.ty depth event state = .ok ((), state')) (other : CheckState) :
    ∃ other', endBorrow row depth other = .ok ((), other') := by
  obtain ⟨linear, known, -⟩ := lift_bind_eq_ok.mp noted
  obtain ⟨outermost, between, popped⟩ := borrowPop_eq_ok row.name other
  have unborrowed : ∃ other',
      ledgerNote row.name row.ty depth .unborrow between = .ok ((), other') := by
    cases linear <;> exact ⟨_, lift_bind_eq_ok.mpr ⟨_, known, rfl⟩⟩
  cases outermost with
  | false => exact ⟨between, bind_eq_ok.mpr ⟨_, _, popped, rfl⟩⟩
  | true =>
    obtain ⟨other', unborrowed⟩ := unborrowed
    exact ⟨other', bind_eq_ok.mpr ⟨_, _, popped, unborrowed⟩⟩

/-- What the checker accepts and the tables it leaves depend on neither the ledger
nor the counters of the borrows. -/
theorem sameResult_rule : WalkRule SameResult where
  toStepRule := sameResult_steps
  branch related := by
    intro _ _ _ checked other
    obtain ⟨id, _, _, rest⟩ := bind_eq_ok.mp checked
    obtain ⟨other', rest'⟩ := related id other.ledger.branchIds rest
      { other with ledger := { other.ledger with branchIds := other.ledger.branchIds + 1 } }
    exact ⟨other', bind_eq_ok.mpr ⟨_, _, rfl, rest'⟩⟩
  withArm related id arm id' arm' := by
    intro _ _ _ walked other
    obtain ⟨_, inside, _⟩ := withArm_eq_ok walked
    obtain ⟨_, inside'⟩ := related inside { other with ledger := other.ledger.enterArm id' arm' }
    exact ⟨_, bind_eq_ok.mpr ⟨_, _, rfl, bind_eq_ok.mpr ⟨_, _, rfl, bind_eq_ok.mpr
      ⟨_, _, inside', rfl⟩⟩⟩⟩
  scope related tbl depth row rename refType event during afterwards := by
    intro _ _ _ checked other
    obtain ⟨_, _, -, checked⟩ := bind_eq_ok.mp checked
    obtain ⟨_, _, noted, checked⟩ := bind_eq_ok.mp checked
    obtain ⟨_, marked, checked⟩ := lift_bind_eq_ok.mp checked
    obtain ⟨_, _, entered, checked⟩ := bind_eq_ok.mp checked
    obtain ⟨_, _, walked, checked⟩ := bind_eq_ok.mp checked
    obtain ⟨_, _, -, checked⟩ := bind_eq_ok.mp checked
    obtain ⟨_, updated, removed⟩ := lift_bind_eq_ok.mp checked
    obtain ⟨_, noted'⟩ := sameResult_steps.ledgerNote _ _ _ _ noted _
    obtain ⟨_, entered'⟩ := sameResult_steps.addEntry _ _ _ _ entered _
    obtain ⟨_, walked'⟩ := related _ walked _
    obtain ⟨_, ended'⟩ := endBorrow_of_ledgerNote noted _
    obtain ⟨_, removed'⟩ := sameResult_steps.removeEntry _ _ removed _
    exact ⟨_, bind_eq_ok.mpr ⟨_, _, rfl, bind_eq_ok.mpr ⟨_, _, noted', lift_bind_eq_ok.mpr
      ⟨_, marked, bind_eq_ok.mpr ⟨_, _, entered', bind_eq_ok.mpr ⟨_, _, walked', bind_eq_ok.mpr
        ⟨_, _, ended', lift_bind_eq_ok.mpr ⟨_, updated, removed'⟩⟩⟩⟩⟩⟩⟩⟩

/-! ## Arms -/

def StateTbl.stateOf (tbl : StateTbl) (x : Identifier) : Option VarState :=
  (tbl.getEntry x).map TableRow.state

theorem StateTbl.stateOf_eq (tbl : StateTbl) (x : Identifier) :
    tbl.stateOf x = (tbl.view x).row.map VarRow.state := by
  rw [stateOf, view, Option.map_map]
  rfl

/-- The tables that the arms of a case leave, as the checker computes them. -/
def LeavesArms (tbl : StateTbl) (depth : Nat) (scrutinee : TExpr)
    (whens : List (TypedWhen TStmt)) (state : CheckState) (tbls : List StateTbl) : Prop :=
  ∃ checked state₁ branch state₂ state₃,
    checkExpr tbl depth scrutinee state = .ok (checked, state₁) ∧
    nextBranch state₁ = .ok (branch, state₂) ∧
    checkWhens checked depth branch 0 whens state₂ = .ok (tbls, state₃)

/-- Every two arms leave each linear variable of the scope around the case in the
same state. -/
def ArmsAgree (tbl : StateTbl) (tbls : List StateTbl) : Prop :=
  ∀ row ∈ tbl.rows, isLinear row.ty = true → ∀ first ∈ tbls, ∀ second ∈ tbls,
    first.stateOf row.name = second.stateOf row.name

/-- Every two neighbouring tables pass the checker's comparison. -/
def NeighboursAgree (tbls : List StateTbl) : Prop :=
  tbls.IsChain fun first second => tablesAreConsistent "a case" first second = .ok ()

theorem accepted_iff_of_leavesArms (leaves : LeavesArms tbl depth scrutinee whens state tbls) :
    (∃ result, checkStmt tbl depth (.caseStmt scrutinee whens kind) state = .ok result) ↔
      tableListIsConsistent tbls = .ok () := by
  obtain ⟨checked, _, _, _, last, read, taken, walked⟩ := leaves
  rw [checkStmt]
  constructor
  · rintro ⟨_, accepted⟩
    obtain ⟨_, _, read', accepted⟩ := bind_eq_ok.mp accepted
    cases read.symm.trans read'
    obtain ⟨_, _, taken', accepted⟩ := bind_eq_ok.mp accepted
    cases taken.symm.trans taken'
    obtain ⟨_, _, walked', accepted⟩ := bind_eq_ok.mp accepted
    cases walked.symm.trans walked'
    obtain ⟨_, compared, _⟩ := lift_bind_eq_ok.mp accepted
    exact compared
  · intro compared
    exact ⟨(tbls.headD checked, last), bind_eq_ok.mpr ⟨_, _, read, bind_eq_ok.mpr
      ⟨_, _, taken, bind_eq_ok.mpr ⟨_, _, walked, lift_bind_eq_ok.mpr ⟨_, compared, rfl⟩⟩⟩⟩⟩

theorem LeavesArms.tail (leaves : LeavesArms tbl depth scrutinee whens state tbls) :
    LeavesArms tbl depth scrutinee whens.tail state tbls.tail := by
  obtain ⟨checked, between, branch, started, last, read, taken, walked⟩ := leaves
  cases whens with
  | nil =>
    rw [checkWhens] at walked
    obtain ⟨rfl, rfl⟩ := pure_eq_ok.mp walked
    exact ⟨checked, between, branch, started, started, read, taken, rfl⟩
  | cons _ others =>
    rw [checkWhens] at walked
    obtain ⟨_, _, _, walked⟩ := bind_eq_ok.mp walked
    obtain ⟨_, _, walkedOthers, walked⟩ := bind_eq_ok.mp walked
    obtain ⟨rfl, _⟩ := pure_eq_ok.mp walked
    obtain ⟨last', walkedAlone⟩ := sameResult_rule.checkWhens
      (fun whn _ tbl => sameResult_rule.checkStmt whn.body tbl depth) checked branch 1 branch 0
      walkedOthers started
    exact ⟨checked, between, branch, started, last', read, taken, walkedAlone⟩

theorem tableListIsConsistent_of_neighboursAgree (agree : NeighboursAgree tbls) :
    tableListIsConsistent tbls = .ok () := by
  induction tbls using tableListIsConsistent.induct with
  | case1 first second rest ih =>
    obtain ⟨firstPassed, agree⟩ := isChain_cons_cons.mp agree
    rw [tableListIsConsistent]
    exact Comp.bind_eq_ok.mpr ⟨(), firstPassed, ih agree.tail⟩
  | case2 => rfl
  | case3 => rfl

/-- Comparing in pairs from the first table on and from the second table on compares
all neighbours. -/
theorem neighboursAgree_of_pairs (paired : tableListIsConsistent tbls = .ok ())
    (pairedTail : tableListIsConsistent tbls.tail = .ok ()) : NeighboursAgree tbls := by
  induction tbls with
  | nil => exact .nil
  | cons first others ih =>
    cases others with
    | nil => exact .singleton first
    | cons =>
      rw [tableListIsConsistent] at paired
      obtain ⟨_, firstPassed, restPassed⟩ := Comp.bind_eq_ok.mp paired
      exact .cons_cons firstPassed (ih pairedTail restPassed)

theorem view_row_of_arm (present : view.row = some row)
    (tracked : trackWhen x depth whn view = some armView) :
    ∃ armState, armView.row = some { row with state := armState } := by
  have isSome : view.row.isSome = true := by rw [present]; rfl
  have stays := staysInScope_when isSome (staysInScope_track isSome) tracked
  obtain ⟨armState, armRow, _⟩ := stays.1 row present
  exact ⟨armState, armRow⟩

theorem view_row_of_trackWhens (present : view.row = some row)
    (tracked : trackWhens x depth whens view = some views) :
    ∀ armView ∈ views, ∃ armState, armView.row = some { row with state := armState } := by
  induction whens generalizing views with
  | nil =>
    cases tracked
    exact forall_mem_nil _
  | cons _ _ ih =>
    obtain ⟨_, firstEq, tracked⟩ := Option.bind_eq_some_iff.mp tracked
    obtain ⟨_, restEq, ⟨⟩⟩ := Option.bind_eq_some_iff.mp tracked
    exact forall_mem_cons.mpr ⟨view_row_of_arm present firstEq, ih restEq⟩

theorem armsAgree_of_neighboursAgree (leaves : LeavesArms tbl depth scrutinee whens state tbls)
    (agree : NeighboursAgree tbls) : ArmsAgree tbl tbls := by
  intro row member linear
  obtain ⟨_, _, _, _, _, read, _, walked⟩ := leaves
  have present : (tbl.view row.name).row = some row.varRow := by
    rw [StateTbl.view, StateTbl.getEntry, StateTbl.findRow_of_mem tbl.nodupNames member]
    rfl
  obtain ⟨_, readRow, _⟩ := persists_read (view_checkExpr read) _ present
  have rows := view_row_of_trackWhens readRow
    (view_checkWhens (x := row.name) (fun _ _ _ => view_checkStmt) walked)
  have chain : tbls.IsChain fun first second =>
      first.stateOf row.name = second.stateOf row.name := by
    refine agree.imp_of_mem_imp fun first second isFirst isSecond passed => ?_
    obtain ⟨_, firstRow⟩ := rows _ (mem_map_of_mem isFirst)
    obtain ⟨_, secondRow⟩ := rows _ (mem_map_of_mem isSecond)
    have compared := view_tablesAreConsistent (x := row.name) passed
    rw [StateTbl.stateOf_eq, StateTbl.stateOf_eq, firstRow, secondRow]
    simpa [VarView.consistent, firstRow, secondRow, TableRow.varRow, linear] using compared
  have equal : (tbls.map fun armTbl => armTbl.stateOf row.name).Pairwise (· = ·) :=
    isChain_iff_pairwise.mp ((isChain_map _).mpr chain)
  intro _ isFirst _ isSecond
  exact equal.forall_of_forall (fun _ _ => rfl) (mem_map_of_mem isFirst) (mem_map_of_mem isSecond)

/-- The arms of an accepted case agree if the case without its first arm is accepted
too; and it is accepted exactly if all neighbouring arms pass the comparison. -/
theorem armsAgree_of_tail_accepted
    (accepted : checkStmt tbl depth (.caseStmt scrutinee whens kind) state = .ok result)
    (leaves : LeavesArms tbl depth scrutinee whens state tbls) :
    ((∃ result', checkStmt tbl depth (.caseStmt scrutinee whens.tail kind) state = .ok result') →
        ArmsAgree tbl tbls) ∧
      ((∃ result', checkStmt tbl depth (.caseStmt scrutinee whens.tail kind) state = .ok result') ↔
        NeighboursAgree tbls) := by
  have paired := (accepted_iff_of_leavesArms leaves).mp ⟨result, accepted⟩
  have exact : (∃ result', checkStmt tbl depth (.caseStmt scrutinee whens.tail kind) state =
      .ok result') ↔ NeighboursAgree tbls := by
    rw [accepted_iff_of_leavesArms leaves.tail]
    exact ⟨neighboursAgree_of_pairs paired, fun agree =>
      tableListIsConsistent_of_neighboursAgree (IsChain.tail agree)⟩
  exact ⟨fun tailAccepted => armsAgree_of_neighboursAgree leaves (exact.mp tailAccepted), exact⟩

/-- A linear handle and the shape that the case is on. -/
def handleTbl (handle : VarState) : StateTbl :=
  ⟨[⟨⟨"handle"⟩, handleTy, 0, handle⟩, ⟨⟨"shape"⟩, shapeTy, 0, .unconsumed⟩], [], by simp⟩

/-- Two arms that close the handle, and a third one. -/
def closingArms (third : TStmt) : List (TypedWhen TStmt) :=
  [⟨⟨"Circle"⟩, [], .discarding closeHandle⟩, ⟨⟨"Square"⟩, [], .discarding closeHandle⟩,
    ⟨⟨"Line"⟩, [], third⟩]

def closingCase (arms : List (TypedWhen TStmt)) : TStmt :=
  .caseStmt (.paramVar ⟨"shape"⟩ shapeTy) arms .casePlain

theorem armsAgree_at_three_closing :
    LeavesArms (handleTbl .unconsumed) 0 (.paramVar ⟨"shape"⟩ shapeTy)
      (closingArms (.discarding closeHandle)) ⟨.empty true, []⟩ (replicate 3 (handleTbl .consumed)) ∧
    ArmsAgree (handleTbl .unconsumed) (replicate 3 (handleTbl .consumed)) := by
  have leaves : LeavesArms (handleTbl .unconsumed) 0 (.paramVar ⟨"shape"⟩ shapeTy)
      (closingArms (.discarding closeHandle)) ⟨.empty true, []⟩
      (replicate 3 (handleTbl .consumed)) := ⟨_, _, _, _, _, rfl, rfl, rfl⟩
  obtain ⟨_, accepted⟩ : ∃ result, checkStmt (handleTbl .unconsumed) 0
      (closingCase (closingArms (.discarding closeHandle))) ⟨.empty true, []⟩ = .ok result :=
    ⟨_, rfl⟩
  exact ⟨leaves, (armsAgree_of_tail_accepted accepted leaves).1 ⟨_, rfl⟩⟩

/-- A case with three arms is accepted, of which the first two close the handle and
the third does not. -/
theorem third_arm_is_not_compared : ∃ result tbls,
    checkStmt (handleTbl .unconsumed) 0 (closingCase (closingArms .skip)) ⟨.empty true, []⟩ =
      .ok result ∧
    LeavesArms (handleTbl .unconsumed) 0 (.paramVar ⟨"shape"⟩ shapeTy) (closingArms .skip)
      ⟨.empty true, []⟩ tbls ∧ ¬ ArmsAgree (handleTbl .unconsumed) tbls := by
  refine ⟨_, [handleTbl .consumed, handleTbl .consumed, handleTbl .unconsumed], rfl,
    ⟨_, _, _, _, _, rfl, rfl, rfl⟩, ?_⟩
  intro agree
  have same := agree ⟨⟨"handle"⟩, handleTy, 0, .unconsumed⟩ mem_cons_self rfl
    (handleTbl .consumed) mem_cons_self (handleTbl .unconsumed) (by simp)
  exact absurd same (by decide)

end AustralVM
