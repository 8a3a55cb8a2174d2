import AustralVM.ArmAgreement
import AustralVM.KeyedSets
import Mathlib.Logic.Relation

/-!
# Borrow scopes

The checker keeps the borrows that are open twice: in the state of each variable
in the table, and in a counter for each variable next to it.  This module follows
both through the walk over a body and shows that they stay in step, and that a
variable stays as it is borrowed until the scope of the borrow ends.
-/

namespace AustralVM

open Check Option VarState
open List hiding after
open StateTbl hiding rows

/-! ## The state of a borrowed variable -/

/-- The row of the variable, if it is borrowed. -/
@[grind =]
def VarView.lent (view : VarView) : Option VarRow :=
  match view.row with
  | some row => if row.state.isBorrowed then some row else none
  | none => none

section Lent

variable {x : Identifier} {depth : Nat} {view view' : VarView}

theorem lent_eq_some : view.lent = some row ↔
      row.state.isBorrowed = true ∧ view.row = some row := by
  cases present : view.row with
  | none => simp [VarView.lent, present]
  | some => grind [VarView.lent]

theorem lent_of_persists (present : view.row.isSome = true)
    (persists : Persists depth view view') : view'.lent = view.lent := by
  obtain ⟨⟨_, _, _⟩, rowEq⟩ := isSome_iff_exists.mp present
  obtain ⟨_, _, _, _⟩ := persists _ rowEq
  grind [VarView.lent]

theorem lent_enter (entered : whenNamed x name (VarView.enter ty depth) view = some view') :
    view'.lent = view.lent := by
  grind [isBorrowed]

theorem lent_read (readTo : view.read depth appearances = some view') : view'.lent = view.lent := by
  grind [isBorrowed]

theorem lent_fill (filled : whenNamed x name VarView.fill view = some view') :
    view'.lent = view.lent := by
  grind [isBorrowed]

theorem lent_enterAll (entered : trackBindings x depth bindings view = some view') :
    view'.lent = view.lent := by
  induction bindings generalizing view with
  | nil =>
    cases entered
    rfl
  | cons _ _ ih =>
    rw [trackBindings, foldlM_cons] at entered
    obtain ⟨_, enteredFirst, enteredRest⟩ := bind_eq_some_iff.mp entered
    exact (ih enteredRest).trans (lent_enter enteredFirst)

theorem lent_scope (scope : TracksScope x depth bindings body view view')
    (bodyLent : ∀ entered bodyView, track x depth body entered = some bodyView →
      bodyView.lent = entered.lent) : view'.lent = view.lent := by
  obtain ⟨_, _, enteredEq, bodyEq, leftEq⟩ := scope
  by_cases bound : x ∈ bindings.map TypedBinding.rename
  · have absent : view.row = none := by
      by_contra present
      exact (not_mem_of_trackBindings (isSome_iff_ne_none.mpr present) enteredEq).1 bound
    simp [VarView.lent, row_eq_none_of_leave (leave_of_trackLeaving bound leftEq), absent]
  · rw [eq_of_trackLeaving bound leftEq, bodyLent _ _ bodyEq, lent_enterAll enteredEq]

theorem lent_track (tracked : track x depth stmt view = some view') : view'.lent = view.lent := by
  induction stmt generalizing depth view view' with
  | skip =>
    cases tracked
    rfl
  | letStmt _ _ _ _ ih => exact lent_scope (track_letStmt tracked) fun _ _ => ih
  | letTmp =>
    obtain ⟨_, enteredEq, readTo⟩ := track_letTmp tracked
    exact (lent_read readTo).trans (lent_enter enteredEq)
  | assignTmp =>
    obtain ⟨readView, readTo, filled, unfilled⟩ := track_assignTmp tracked
    cases present : readView.row.isSome with
    | true => exact (lent_fill (filled present)).trans (lent_read readTo)
    | false => rw [unfilled present, lent_read readTo]
  | destructure _ _ _ _ ih =>
    obtain ⟨_, readTo, scope⟩ := track_destructure tracked
    exact (lent_scope scope fun _ _ => ih).trans (lent_read readTo)
  | assign =>
    obtain ⟨_, readLvalue, readValue⟩ := track_assign tracked
    exact (lent_read readValue).trans (lent_read readLvalue)
  | assignVar =>
    obtain ⟨_, readTo, filled⟩ := track_assignVar tracked
    exact (lent_fill filled).trans (lent_read readTo)
  | initialAssign | discarding => exact lent_read tracked
  | ifStmt _ _ _ ih =>
    obtain ⟨_, _, readTo, trueEq, _⟩ := track_ifStmt tracked
    exact (ih trueEq).trans (lent_read readTo)
  | caseStmt _ _ _ ih =>
    obtain ⟨_, _, readTo, viewsEq, _, rfl⟩ := track_caseStmt tracked
    rw [← lent_read readTo]
    rcases head_trackWhens viewsEq with ⟨_, headEq⟩ | ⟨whn, member, _, headEq⟩
    · rw [headEq]
    · exact lent_scope (track_when headEq) fun _ _ => ih whn member
  | whileStmt _ _ ih =>
    obtain ⟨_, readTo, bodyEq, _⟩ := track_whileStmt tracked
    exact (ih bodyEq).trans (lent_read readTo)
  | forStmt _ _ _ _ ih =>
    obtain ⟨_, _, readStart, readFinal, bodyEq, _⟩ := track_forStmt tracked
    exact (ih bodyEq).trans ((lent_read readFinal).trans (lent_read readStart))
  | borrow original rename _ _ _ _ _ ih =>
    cases inScope : view.row.isSome with
    | true => exact lent_of_persists inScope (staysInScope_track inScope tracked).persists
    | false =>
      obtain ⟨_, entered, bodyView, startEq, enteredEq, bodyEq, leftEq⟩ := track_borrow tracked
      have notOriginal : original ≠ x := by grind
      rw [startBorrow, if_neg notOriginal] at startEq
      cases startEq
      rw [← trackBindings_singleton rename] at enteredEq
      rw [restoreBorrow_of_ne notOriginal, ← trackLeaving_singleton] at leftEq
      exact lent_scope ⟨entered, bodyView, enteredEq, bodyEq, leftEq⟩ fun _ _ => ih
  | block _ _ ofFirst ofSecond =>
    obtain ⟨_, firstEq, secondEq⟩ := track_block tracked
    exact (ofSecond secondEq).trans (ofFirst firstEq)
  | returnStmt => exact lent_read (track_returnStmt tracked).1

theorem read_of_lent (lent : view.lent = some row) (linear : isLinear row.ty = true)
    (readTo : view.read depth appearances = some view') : appearances = 0 ∧ view' = view := by
  grind [isBorrowed]

/-- The expressions that a statement itself evaluates. -/
def ownExprs : TStmt → List TExpr
  | .letTmp _ _ value => [value]
  | stmt => heads stmt

/-- No statement that is walked over while the variable is borrowed mentions it. -/
theorem count_of_lent (lent : view.lent = some row) (linear : isLinear row.ty = true)
    (tracked : track x depth stmt view = some view') : ∀ expr ∈ ownExprs stmt, count x expr = 0 := by
  have unread {value : TExpr} {readView : VarView}
      (readTo : view.read depth (count x value) = some readView) :
      ∀ expr ∈ [value], count x expr = 0 :=
    forall_mem_singleton.mpr (read_of_lent lent linear readTo).1
  have unreadBoth {first second : TExpr} {between last : VarView}
      (readFirst : view.read depth (count x first) = some between)
      (readSecond : between.read depth (count x second) = some last) :
      ∀ expr ∈ [first, second], count x expr = 0 := by
    obtain ⟨none, rfl⟩ := read_of_lent lent linear readFirst
    exact forall_mem_cons.mpr ⟨none, unread readSecond⟩
  cases stmt with
  | letTmp =>
    obtain ⟨_, enteredEq, readTo⟩ := track_letTmp tracked
    have present : view.row.isSome = true := by rw [(lent_eq_some.mp lent).2, isSome_some]
    obtain ⟨-, rfl⟩ := ne_of_enter present enteredEq
    exact unread readTo
  | assign =>
    obtain ⟨_, readLvalue, readValue⟩ := track_assign tracked
    exact unreadBoth readLvalue readValue
  | forStmt =>
    obtain ⟨_, _, readStart, readFinal, _⟩ := track_forStmt tracked
    exact unreadBoth readStart readFinal
  | initialAssign | discarding => exact unread tracked
  | assignTmp => exact unread (track_assignTmp tracked).choose_spec.1
  | destructure => exact unread (track_destructure tracked).choose_spec.1
  | assignVar => exact unread (track_assignVar tracked).choose_spec.1
  | ifStmt => exact unread (track_ifStmt tracked).choose_spec.choose_spec.1
  | caseStmt => exact unread (track_caseStmt tracked).choose_spec.choose_spec.1
  | whileStmt => exact unread (track_whileStmt tracked).choose_spec.1
  | returnStmt => exact unread (track_returnStmt tracked).1
  | skip | letStmt | borrow | block => exact forall_mem_nil _

end Lent

/-! ## The counters -/

def CheckState.borrows (state : CheckState) (y : Identifier) : Nat :=
  (state.borrowDepth.lookup y).getD 0

open CheckState

theorem borrows_push (state : CheckState) (name y : Identifier) (count : Nat) :
    borrows { state with
      borrowDepth := (name, count) :: state.borrowDepth.filter fun entry => entry.1 ≠ name } y =
        if y = name then count else state.borrows y := by
  rw [borrows, lookup_cons, lookup_filter_ne]
  by_cases isName : y = name
  · simp [isName]
  · simp [isName, beq_eq_false_iff_ne.mpr isName, borrows]

theorem borrows_erase (state : CheckState) (name y : Identifier) :
    borrows { state with
      borrowDepth := state.borrowDepth.filter fun entry => entry.1 ≠ name } y =
        if y = name then 0 else state.borrows y := by
  rw [borrows, lookup_filter_ne]
  by_cases isName : y = name <;> simp [isName, borrows]

section Counters

variable {state state' : CheckState} {name : Identifier}

theorem borrows_of_borrowPush (pushed : borrowPush name state = .ok ((), state')) (y : Identifier) :
    state'.borrows y = if y = name then state.borrows name + 1 else state.borrows y := by
  cases pushed
  exact borrows_push state name y _

theorem borrows_of_borrowPop (popped : borrowPop name state = .ok (outermost, state'))
    (y : Identifier) :
    state'.borrows y = if y = name then state.borrows name - 1 else state.borrows y := by
  obtain ⟨_, _, got, popped⟩ := bind_eq_ok.mp popped
  cases got
  cases found : state.borrowDepth.lookup name with
  | none =>
    simp only [found] at popped
    obtain ⟨_, rfl⟩ := pure_eq_ok.mp popped
    grind [borrows]
  | some count =>
    have isCount : state.borrows name = count := by rw [borrows, found, getD_some]
    simp only [found] at popped
    by_cases nested : 1 < count
    · rw [if_pos nested] at popped
      cases popped
      rw [borrows_push, isCount]
    · rw [if_neg nested] at popped
      cases popped
      rw [borrows_erase, isCount, Nat.sub_eq_zero_of_le (by omega)]

end Counters

/-- A part of the check leaves the counters as they are. -/
def KeepsBorrows {α : Type} (check : Check α) : Prop :=
  ∀ state result state', check state = .ok (result, state') →
    ∀ y, state'.borrows y = state.borrows y

theorem KeepsBorrows.bind {next : α → Check β} (first : KeepsBorrows check)
    (second : ∀ value, KeepsBorrows (next value)) : KeepsBorrows (check >>= next) := by
  intro _ _ _ checked _
  obtain ⟨value, _, firstEq, secondEq⟩ := bind_eq_ok.mp checked
  rw [second value _ _ _ secondEq, first _ _ _ firstEq]

theorem keepsBorrows_steps : StepRule fun check _ => KeepsBorrows check where
  pure _ := by
    intro _ _ _ checked _
    rw [(pure_eq_ok.mp checked).2]
  lift _ := by
    intro _ _ _ checked _
    rw [(lift_eq_ok.mp checked).2]
  bind := .bind
  record _ := by
    intro _ _ _ recorded _
    cases recorded
    rfl

theorem keepsBorrows_nextBranch : KeepsBorrows nextBranch := by
  intro _ _ _ taken _
  cases taken
  rfl

theorem keepsBorrows_rule : WalkRule fun check _ => KeepsBorrows check where
  toStepRule := keepsBorrows_steps
  branch related := keepsBorrows_nextBranch.bind fun id => related id id
  withArm keeps id arm _ _ := by
    intro _ _ _ walked y
    obtain ⟨_, walkedInside, rfl⟩ := withArm_eq_ok walked
    exact keeps _ _ _ walkedInside y
  scope body tbl depth row rename refType event during afterwards := by
    intro _ _ _ checked y
    obtain ⟨_, pushed, pushedEq, checked⟩ := bind_eq_ok.mp checked
    obtain ⟨_, _, noted, checked⟩ := bind_eq_ok.mp checked
    obtain ⟨_, _, checked⟩ := lift_bind_eq_ok.mp checked
    obtain ⟨_, _, enteredEq, checked⟩ := bind_eq_ok.mp checked
    obtain ⟨_, bodyState', walked, checked⟩ := bind_eq_ok.mp checked
    obtain ⟨_, endState, ended, checked⟩ := bind_eq_ok.mp checked
    obtain ⟨_, _, removed⟩ := lift_bind_eq_ok.mp checked
    have same : ∀ y, bodyState'.borrows y = pushed.borrows y := by
      intro _
      rw [body _ _ _ _ walked, keepsBorrows_steps.addEntry _ _ _ _ _ _ _ enteredEq,
        keepsBorrows_steps.ledgerNote _ _ _ _ _ _ _ noted]
    obtain ⟨_, popped, poppedEq, noted⟩ := bind_eq_ok.mp ended
    have unborrowed : ∀ y, endState.borrows y = popped.borrows y :=
      keepsBorrows_steps.ite (keepsBorrows_steps.ledgerNote row.name row.ty depth .unborrow)
        (keepsBorrows_steps.pure ()) _ _ _ noted
    rw [keepsBorrows_steps.removeEntry _ _ _ _ _ removed, unborrowed,
      borrows_of_borrowPop poppedEq, same, same, borrows_of_borrowPush pushedEq,
      borrows_of_borrowPush pushedEq]
    grind

/-! ## The parts of a walk -/

/-- The steps up to each part of a statement: the loop depth and the statement of
the part, and what the checker does before it walks over it. -/
def partsOf (tbl : StateTbl) (depth : Nat) : TStmt → List (Nat × TStmt × Check StateTbl)
  | .letStmt _ name ty body => [(depth, body, tbl.addEntry name ty depth)]
  | .destructure _ bindings value body =>
    [(depth, body, do addBindingEntries (← checkExpr tbl depth value) depth bindings)]
  | .ifStmt condition consequent alternative =>
    [(depth, consequent, do
        let tbl ← checkExpr tbl depth condition
        inArm (← nextBranch) 0 tbl),
      (depth, alternative, do
        let tbl ← checkExpr tbl depth condition
        let branch ← nextBranch
        let _ ← withArm branch 0 (checkStmt tbl depth consequent)
        inArm branch 1 tbl)]
  | .caseStmt scrutinee whens _ =>
    whens.zipIdx.map fun (whn, arm) => (depth, whn.body, do
      let tbl ← checkExpr tbl depth scrutinee
      let branch ← nextBranch
      let _ ← checkWhens tbl depth branch 0 (whens.take arm)
      addBindingEntries (← inArm branch arm tbl) depth whn.bindings)
  | .whileStmt condition body => [(depth + 1, body, checkExpr tbl depth condition)]
  | .forStmt _ start final body =>
    [(depth + 1, body, do checkExpr (← checkExpr tbl depth start) depth final)]
  | .borrow original rename _ _ refType body mode => [(depth, body, do
      let row ← tbl.getEntryOrFail original
      if row.state = .unconsumed then
        startScope row rename refType (borrowEvent mode) (borrowedState mode)
      else if mode = .read ∧ row.state = .borrowedRead then
        startScope row rename refType .borrowRead .borrowedRead
      else
        cannotBorrow mode original row.state)]
  | .block first second => [(depth, first, pure tbl), (depth, second, checkStmt tbl depth first)]
  | _ => []
where
  startScope (row : TableRow) (rename : Identifier) (refType : Ty) (event : LedgerEvent)
      (during : VarState) : Check StateTbl := do
    borrowPush row.name
    ledgerNote row.name row.ty depth event
    let tbl ← markBorrowed tbl row during
    tbl.addEntry rename refType depth
  inArm (branch arm : Nat) (tbl : StateTbl) : Check StateTbl := do
    modify fun state => { state with ledger := state.ledger.enterArm branch arm }
    return tbl

structure Walk where
  tbl : StateTbl
  depth : Nat
  stmt : TStmt
  state : CheckState

namespace Walk

def run (walk : Walk) : Comp (StateTbl × CheckState) :=
  checkStmt walk.tbl walk.depth walk.stmt walk.state

/-- A walk over a statement walks over one of its parts. -/
def Part (walk part : Walk) : Prop :=
  ∃ steps, (part.depth, part.stmt, steps) ∈ partsOf walk.tbl walk.depth walk.stmt ∧
    steps walk.state = .ok (part.tbl, part.state)

/-- The counter of each variable is zero exactly if the variable is not borrowed. -/
def Counted (walk : Walk) : Prop :=
  ∀ y, walk.state.borrows y = 0 ↔ (walk.tbl.view y).lent = none

end Walk

/-- A part of the check leaves every variable borrowed as it was. -/
def Lends (tbl : StateTbl) (check : Check StateTbl) : Prop :=
  ∀ state tbl' state', check state = .ok (tbl', state') →
    ∀ y, (tbl'.view y).lent = (tbl.view y).lent

namespace Lends

variable {tbl : StateTbl}

theorem pure (tbl : StateTbl) : Lends tbl (Pure.pure tbl) := by
  intro _ _ _ checked _
  rw [(pure_eq_ok.mp checked).1]

theorem bind {next : StateTbl → Check StateTbl} (first : Lends tbl check)
    (second : ∀ tbl, Lends tbl (next tbl)) : Lends tbl (check >>= next) := by
  intro _ _ _ checked _
  obtain ⟨between, _, firstEq, secondEq⟩ := bind_eq_ok.mp checked
  rw [second between _ _ _ secondEq, first _ _ _ firstEq]

theorem after {next : α → Check StateTbl} (second : ∀ value, Lends tbl (next value)) :
    Lends tbl (check >>= next) := by
  intro _ _ _ checked y
  obtain ⟨value, _, _, secondEq⟩ := bind_eq_ok.mp checked
  exact second value _ _ _ secondEq y

theorem inArm (branch arm : Nat) (tbl : StateTbl) : Lends tbl (partsOf.inArm branch arm tbl) :=
  after fun _ => pure tbl

theorem addEntry (tbl : StateTbl) (name : Identifier) (ty : Ty) (depth : Nat) :
    Lends tbl (tbl.addEntry name ty depth) :=
  fun _ _ _ added _ => lent_enter (view_addEntry added)

theorem addBindingEntries (tbl : StateTbl) (depth : Nat) (bindings : List TypedBinding) :
    Lends tbl (addBindingEntries tbl depth bindings) :=
  fun _ _ _ added _ => lent_enterAll (view_addBindingEntries added)

theorem checkExpr (tbl : StateTbl) (depth : Nat) (expr : TExpr) :
    Lends tbl (checkExpr tbl depth expr) :=
  fun _ _ _ checked _ => lent_read (view_checkExpr checked)

theorem checkStmt (tbl : StateTbl) (depth : Nat) (stmt : TStmt) :
    Lends tbl (checkStmt tbl depth stmt) :=
  fun _ _ _ checked _ => lent_track (view_checkStmt checked)

end Lends

/-! ## What the parts see -/

section Parts

variable {tbl tbl' : StateTbl} {depth : Nat} {state state' : CheckState}

theorem isBorrowed_of_mayBorrow (mayBorrow : MayBorrow row mode during) :
    during.isBorrowed = true := by
  rcases mayBorrow with ⟨_, rfl⟩ | ⟨_, _, _, rfl⟩
  · cases mode <;> rfl
  · rfl

theorem startScope_eq_ok (found : tbl.getEntry row.name = some row)
    (borrowed : during.isBorrowed = true)
    (started : partsOf.startScope tbl depth row rename refType event during state =
      .ok (tbl', state')) (y : Identifier) :
    ((tbl'.view y).lent =
        if y = row.name then some { row.varRow with state := during } else (tbl.view y).lent) ∧
      state'.borrows y = if y = row.name then state.borrows row.name + 1 else state.borrows y := by
  obtain ⟨_, _, pushedEq, started⟩ := bind_eq_ok.mp started
  obtain ⟨_, _, notedEq, started⟩ := bind_eq_ok.mp started
  obtain ⟨_, isMarked, added⟩ := lift_bind_eq_ok.mp started
  rw [Lends.addEntry _ _ _ _ _ _ _ added, view_markBorrowed found isMarked,
    keepsBorrows_steps.addEntry _ _ _ _ _ _ _ added,
    keepsBorrows_steps.ledgerNote _ _ _ _ _ _ _ notedEq,
    borrows_of_borrowPush pushedEq]
  refine ⟨?_, rfl⟩
  by_cases isName : row.name = y
  · subst isName
    simp [VarView.lent, VarView.set, view_row, found, borrowed]
  · rw [if_neg isName, if_neg (Ne.symm isName)]

theorem part_borrow
    (isPart : Walk.Part ⟨tbl, depth, .borrow original rename region origType refType body mode,
      state⟩ part) :
    ∃ row during, tbl.getEntry original = some row ∧ MayBorrow row mode during ∧ ∀ y,
      ((part.tbl.view y).lent =
          if y = original then some { row.varRow with state := during } else (tbl.view y).lent) ∧
        part.state.borrows y =
          if y = original then state.borrows original + 1 else state.borrows y := by
  obtain ⟨_, member, taken⟩ := isPart
  simp only [partsOf, mem_singleton, Prod.mk.injEq] at member
  obtain ⟨-, -, rfl⟩ := member
  obtain ⟨row, found, taken⟩ := lift_bind_eq_ok.mp taken
  rw [getEntryOrFail_eq_ok] at found
  obtain rfl := name_of_getEntry found
  by_cases unconsumed : row.state = .unconsumed
  · rw [if_pos unconsumed] at taken
    have mayBorrow : MayBorrow row mode (borrowedState mode) := .inl ⟨unconsumed, rfl⟩
    exact ⟨row, _, found, mayBorrow,
      startScope_eq_ok found (isBorrowed_of_mayBorrow mayBorrow) taken⟩
  · rw [if_neg unconsumed] at taken
    by_cases nested : mode = .read ∧ row.state = .borrowedRead
    · rw [if_pos nested] at taken
      exact ⟨row, _, found, .inr ⟨unconsumed, nested.1, nested.2, rfl⟩,
        startScope_eq_ok found rfl taken⟩
    · rw [if_neg nested] at taken
      exact absurd (lift_eq_ok.mp taken).1 Comp.australRaise_ne_ok

theorem part_of_not_borrow {stmt : TStmt} {steps : Check StateTbl} {within : Nat}
    {inner : TStmt} (notBorrow : ∀ original rename region origType refType body mode,
      stmt ≠ .borrow original rename region origType refType body mode)
    (member : (within, inner, steps) ∈ partsOf tbl depth stmt) :
    Lends tbl steps ∧ KeepsBorrows steps := by
  have rule := keepsBorrows_rule
  have inArm : ∀ branch arm tbl, KeepsBorrows (partsOf.inArm branch arm tbl) := by
    intro _ _ _ _ _ _ checked _
    cases checked
    rfl
  cases stmt with
  | borrow => exact (notBorrow _ _ _ _ _ _ _ rfl).elim
  | letStmt _ name ty =>
    cases mem_singleton.mp member
    exact ⟨.addEntry tbl name ty depth, rule.addEntry tbl name ty depth⟩
  | destructure _ bindings value =>
    cases mem_singleton.mp member
    exact ⟨(Lends.checkExpr tbl depth value).bind fun tbl => .addBindingEntries tbl depth bindings,
      (rule.checkExpr tbl depth value).bind fun tbl => rule.addBindingEntries tbl depth bindings⟩
  | ifStmt condition consequent =>
    simp only [partsOf, mem_cons, Prod.mk.injEq, not_mem_nil, or_false] at member
    have lends := Lends.checkExpr tbl depth condition
    have keeps := rule.checkExpr tbl depth condition
    rcases member with ⟨-, -, rfl⟩ | ⟨-, -, rfl⟩
    · exact ⟨lends.bind fun tbl => .after fun branch => .inArm branch 0 tbl,
        keeps.bind fun tbl => keepsBorrows_nextBranch.bind fun branch => inArm branch 0 tbl⟩
    · refine ⟨lends.bind fun tbl => .after fun branch => .after fun _ => .inArm branch 1 tbl, ?_⟩
      refine keeps.bind fun tbl => keepsBorrows_nextBranch.bind fun branch => ?_
      exact (rule.withArm (rule.checkStmt consequent tbl depth) branch 0 branch 0).bind
        fun _ => inArm branch 1 tbl
  | caseStmt scrutinee =>
    simp only [partsOf, List.mem_map, Prod.mk.injEq] at member
    obtain ⟨⟨whn, arm⟩, -, -, -, rfl⟩ := member
    constructor
    · refine (Lends.checkExpr tbl depth scrutinee).bind fun tbl => .after fun branch => ?_
      exact .after fun _ => (Lends.inArm branch arm tbl).bind fun tbl =>
        .addBindingEntries tbl depth whn.bindings
    · refine (rule.checkExpr tbl depth scrutinee).bind fun tbl => ?_
      refine keepsBorrows_nextBranch.bind fun branch => ?_
      refine (rule.checkWhens (fun whn _ tbl => rule.checkStmt whn.body tbl depth) tbl branch 0
        branch 0).bind fun _ => ?_
      exact (inArm branch arm tbl).bind fun tbl => rule.addBindingEntries tbl depth whn.bindings
  | whileStmt condition =>
    cases mem_singleton.mp member
    exact ⟨.checkExpr tbl depth condition, rule.checkExpr tbl depth condition⟩
  | forStmt _ start final =>
    cases mem_singleton.mp member
    exact ⟨(Lends.checkExpr tbl depth start).bind fun tbl => .checkExpr tbl depth final,
      (rule.checkExpr tbl depth start).bind fun tbl => rule.checkExpr tbl depth final⟩
  | block first =>
    simp only [partsOf, mem_cons, Prod.mk.injEq, not_mem_nil, or_false] at member
    rcases member with ⟨-, -, rfl⟩ | ⟨-, -, rfl⟩
    · exact ⟨.pure tbl, rule.pure tbl⟩
    · exact ⟨.checkStmt tbl depth first, rule.checkStmt first tbl depth⟩
  | _ => cases member

theorem lent_part {walk part : Walk} (isPart : walk.Part part) :
    (∀ y, (part.tbl.view y).lent = (walk.tbl.view y).lent ∧
      part.state.borrows y = walk.state.borrows y) ∨
    ∃ row mode during, walk.tbl.getEntry row.name = some row ∧ MayBorrow row mode during ∧ ∀ y,
      ((part.tbl.view y).lent = if y = row.name then some { row.varRow with state := during }
          else (walk.tbl.view y).lent) ∧
        part.state.borrows y =
          if y = row.name then walk.state.borrows row.name + 1 else walk.state.borrows y := by
  obtain ⟨_, _, stmt, _⟩ := walk
  by_cases isBorrow : ∃ original rename region origType refType body mode,
      stmt = .borrow original rename region origType refType body mode
  · obtain ⟨_, _, _, _, _, _, mode, rfl⟩ := isBorrow
    obtain ⟨row, during, found, mayBorrow, sees⟩ := part_borrow isPart
    obtain rfl := name_of_getEntry found
    exact .inr ⟨row, mode, during, found, mayBorrow, sees⟩
  · obtain ⟨_, member, taken⟩ := isPart
    obtain ⟨lends, keeps⟩ := part_of_not_borrow
      (fun _ _ _ _ _ _ _ same => isBorrow ⟨_, _, _, _, _, _, _, same⟩) member
    exact .inl fun y => ⟨lends _ _ _ taken y, keeps _ _ _ taken y⟩

theorem Walk.Counted.part {walk part : Walk} (counted : walk.Counted) (isPart : walk.Part part) :
    part.Counted := by
  intro y
  have before := counted y
  rcases lent_part isPart with same | ⟨row, mode, during, _, _, sees⟩
  · rw [(same y).1, (same y).2, before]
  · rw [(sees y).1, (sees y).2]
    by_cases isName : y = row.name
    · simp [isName]
    · rw [if_neg isName, if_neg isName, before]

/-- A borrowed variable keeps its state in every part: only a read borrow can be
borrowed again, and it stays one. -/
theorem lent_part_of_lent {walk part : Walk} (isPart : walk.Part part)
    (lent : (walk.tbl.view x).lent = some lentRow) : (part.tbl.view x).lent = some lentRow := by
  rcases lent_part isPart with same | ⟨row, mode, during, found, mayBorrow, sees⟩
  · rw [(same x).1, lent]
  · rw [(sees x).1]
    by_cases isName : x = row.name
    · subst isName
      obtain ⟨borrowed, isRow⟩ := lent_eq_some.mp lent
      rw [view_row, found] at isRow
      cases isRow
      rcases mayBorrow with ⟨unconsumed, _⟩ | ⟨_, _, borrowedRead, rfl⟩
      · rw [TableRow.varRow, unconsumed] at borrowed
        cases borrowed
      · rw [if_pos rfl, TableRow.varRow, borrowedRead]
    · rw [if_neg isName, lent]

end Parts

/-! ## Scopes -/

/-- What holds of the scope of a borrow of a variable. -/
structure ScopeKept (scope : Walk) (original : Identifier) (after : StateTbl × CheckState) :
    Prop where
  /-- The variable has the state again that it had before. -/
  restored : after.1.stateOf original = scope.tbl.stateOf original
  /-- It is owned exactly if no borrow of it is open any more. -/
  owned : after.1.stateOf original = some .unconsumed ↔ after.2.borrows original = 0
  /-- Everywhere inside it is borrowed in one state, which no statement changes, and
  is only borrowed again for reading while it is borrowed for reading. -/
  inside : ∃ during, during.isBorrowed = true ∧ ∀ body part, scope.Part body →
    Relation.ReflTransGen Walk.Part body part →
      part.tbl.stateOf original = some during ∧ part.state.borrows original ≠ 0 ∧
      ∀ result, part.run = .ok result → result.1.stateOf original = some during ∧
        ∀ rename region origType refType body mode,
          part.stmt = .borrow original rename region origType refType body mode →
          mode = .read ∧ during = .borrowedRead
  /-- If it is linear, no statement inside consumes it: none evaluates an expression
  that reads it. -/
  unconsumed : ∀ row, scope.tbl.getEntry original = some row → isLinear row.ty = true →
    ∀ body part, scope.Part body → Relation.ReflTransGen Walk.Part body part →
      ∀ result, part.run = .ok result → ∀ expr ∈ ownExprs part.stmt, ∀ uses finishes,
        Reads expr uses finishes → original ∉ uses

section Scopes

variable {original rename region : Identifier} {origType refType : Ty} {body : TStmt}
  {mode : BorrowStmtKind}

/-- A borrow statement that is walked over borrows a variable that is not borrowed,
or one that is borrowed for reading for reading again, and puts its state back. -/
theorem run_borrow
    (left : Walk.run ⟨tbl, depth, .borrow original rename region origType refType body mode,
      state⟩ = .ok after) :
    ∃ before, tbl.stateOf original = some before ∧ after.1.stateOf original = some before ∧
      (before = .unconsumed ∨ mode = .read ∧ before = .borrowedRead) := by
  obtain ⟨_, _, _, startEq, enteredEq, bodyEq, leftEq⟩ :=
    track_borrow (view_checkStmt (x := original) left)
  have inScope : (tbl.view original).row.isSome = true := by grind
  obtain ⟨row, present⟩ := isSome_iff_exists.mp inScope
  rw [← isSome_row_startBorrow startEq] at inScope
  obtain ⟨notRename, rfl⟩ := ne_of_enter inScope enteredEq
  have bodyPresent := (staysInScope_track inScope bodyEq).persists.row_isSome inScope
  obtain ⟨_, isBodyRow⟩ := isSome_iff_exists.mp bodyPresent
  have restored := eq_of_leave notRename leftEq
  refine ⟨row.state, by rw [stateOf_eq, present]; rfl, ?_, by grind⟩
  rw [stateOf_eq, restored]
  simp [restoreBorrow, present, VarView.set, isBodyRow]

/-- Everywhere inside the scope the variable is borrowed as at its begin. -/
theorem lent_inside {body part : Walk} (lent : (body.tbl.view original).lent = some row)
    (inside : Relation.ReflTransGen Walk.Part body part) :
    (part.tbl.view original).lent = some row := by
  induction inside with
  | refl => exact lent
  | tail _ isPart ih => exact lent_part_of_lent isPart ih

theorem Walk.Counted.inside {walk part : Walk} (counted : walk.Counted)
    (inside : Relation.ReflTransGen Walk.Part walk part) : part.Counted := by
  induction inside with
  | refl => exact counted
  | tail _ isPart ih => exact ih.part isPart

theorem scopeKept_of_counted {scope : Walk} (counted : scope.Counted)
    (isBorrow : scope.stmt = .borrow original rename region origType refType body mode)
    (left : scope.run = .ok after) : ScopeKept scope original after := by
  obtain ⟨tbl, depth, stmt, state⟩ := scope
  obtain rfl : stmt = _ := isBorrow
  obtain ⟨before, isBefore, isAfter, allowed⟩ := run_borrow left
  have sameCount : after.2.borrows original = state.borrows original :=
    keepsBorrows_rule.checkStmt _ _ _ _ _ _ left original
  refine ⟨isAfter.trans isBefore.symm, ?_, ?_, ?_⟩
  · have free := counted original
    rw [stateOf_eq] at isBefore
    rw [isAfter, sameCount, free]
    rcases allowed with rfl | ⟨-, rfl⟩ <;> grind [isBorrowed]
  · refine ⟨if before = .unconsumed then borrowedState mode else .borrowedRead, ?_, ?_⟩
    · cases mode <;> split <;> rfl
    · intro _ part isBody inside
      obtain ⟨row, during, found, mayBorrow, sees⟩ := part_borrow isBody
      rw [StateTbl.stateOf, found] at isBefore
      cases isBefore
      have isDuring : during = if row.state = .unconsumed then borrowedState mode
          else .borrowedRead := by
        rcases mayBorrow with ⟨unconsumed, rfl⟩ | ⟨notUnconsumed, _, _, rfl⟩
        · rw [if_pos unconsumed]
        · rw [if_neg notUnconsumed]
      rw [← isDuring]
      have lent := lent_inside (by rw [(sees original).1, if_pos rfl]) inside
      have isRow := (lent_eq_some.mp lent).2
      refine ⟨by rw [stateOf_eq, isRow]; rfl, ?_, ?_⟩
      · rw [ne_eq, (counted.part isBody).inside inside original, lent]
        exact some_ne_none _
      · intro _ ran
        have ranLent := (lent_track (view_checkStmt (x := original) ran)).trans lent
        refine ⟨by rw [stateOf_eq, (lent_eq_some.mp ranLent).2]; rfl, ?_⟩
        intro _ _ _ _ _ _ isNested
        obtain ⟨_, _, stmt, _⟩ := part
        obtain rfl : stmt = _ := isNested
        obtain ⟨_, isNow, _, allowed⟩ := run_borrow ran
        rw [stateOf_eq, isRow] at isNow
        cases isNow
        rcases allowed with rfl | allowed
        · cases (lent_eq_some.mp lent).1
        · exact allowed
  · intro row found linear _ part isBody inside _ ran expr isOwn uses _ reads
    obtain ⟨row', _, found', _, sees⟩ := part_borrow isBody
    cases found.symm.trans found'
    have lent := lent_inside (by rw [(sees original).1, if_pos rfl]) inside
    have none := count_of_lent lent linear (view_checkStmt (x := original) ran) expr isOwn
    have atMost := (reads.count_bounds original).1
    exact count_eq_zero.mp (by omega)

/-- A read borrow of a handle in which the reference is used and the handle is
borrowed again, and after which the handle is closed. -/
def readTwice : TStmt :=
  .borrow ⟨"handle"⟩ ⟨"outer"⟩ ⟨"R"⟩ handleTy (.readRef handleTy (.regionTy ⟨0⟩))
    (.block (.discarding (.localVar ⟨"outer"⟩ (.readRef handleTy (.regionTy ⟨0⟩))))
      (.borrow ⟨"handle"⟩ ⟨"inner"⟩ ⟨"S"⟩ handleTy (.readRef handleTy (.regionTy ⟨1⟩)) .skip .read))
    .read

end Scopes

end AustralVM
