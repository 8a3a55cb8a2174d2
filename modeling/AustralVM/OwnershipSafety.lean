import AustralVM.OwnershipFlow

/-!
# Runs follow the flow

Every run of an accepted, steady statement does with a variable what the flow
says.  A run may only differ from the flow in two ways: a variable whose let has
not been initialised yet has no value, and where losses do not count, a variable
may keep a value that the flow takes as spent.
-/

namespace AustralVM

open OwnEvent List Holding

def OwnEvent.name : OwnEvent → Identifier
  | .enter name _ | .fill name | .use name | .borrow name | .leave name => name

/-- What the flow says a variable holds, and what it holds in a run. -/
inductive Approx (losses : Bool) : Bool → Holding → Holding → Prop
  | exact {holding : Holding} : Approx losses false holding holding
  | unspent {ty : Ty} : losses = false → Approx losses false (.empty ty) (.held ty)
  | uninitialised {ty : Ty} : Approx losses true (.held ty) (.empty ty)

/-- A run does what the flow says: none of its events is refused, if it finishes
the variable holds what the flow says, and if it returns no value is lost. -/
def Follows (losses : Bool) (x : Identifier) (current : Holding) (trace : List OwnEvent)
    (outcome : RunOutcome) (holding : Holding) : Prop :=
  ∃ current', after losses x current trace = some current' ∧
    (outcome = .finished → Approx losses false holding current') ∧
    (outcome = .returned → losses = true → current'.losing = false)

section Events

variable {losses : Bool} {x name : Identifier} {holding holding' current : Holding}
  {uses : List Identifier} {ty : Ty} {depth : Nat} {view view' : VarView}

@[simp]
theorem after_nil : after losses x current [] = some current := rfl

theorem after_cons (event : OwnEvent) (trace : List OwnEvent) :
    after losses x current (event :: trace) =
      (Holding.step losses x current event).bind fun next => Holding.after losses x next trace := by
  rw [Holding.after, foldlM_cons]
  rfl

theorem after_append (trace trace' : List OwnEvent) : after losses x current (trace ++ trace') =
      (after losses x current trace).bind fun next => Holding.after losses x next trace' := by
  rw [Holding.after, foldlM_append]
  rfl

theorem step_of_ne (event : OwnEvent) (differentName : event.name ≠ x) :
    step losses x current event = some current := by
  cases event <;> exact if_neg differentName

namespace Follows

variable {trace : List OwnEvent} {outcome : RunOutcome}

theorem finished (afterEq : after losses x current trace = some current')
    (approx : Approx losses false holding current') :
    Follows losses x current trace .finished holding :=
  ⟨current', afterEq, fun _ => approx, nofun⟩

theorem stopped (afterEq : after losses x current trace = some current') :
    Follows losses x current trace .stopped holding :=
  ⟨current', afterEq, nofun, nofun⟩

theorem nil (approx : Approx losses false holding current) :
    Follows losses x current [] .finished holding :=
  finished rfl approx

theorem cons {next : Holding} (stepEq : step losses x current event = some next)
    (rest : Follows losses x next trace outcome holding) :
    Follows losses x current (event :: trace) outcome holding := by
  obtain ⟨final, afterRest, result⟩ := rest
  refine ⟨final, ?_, result⟩
  rw [after_cons, stepEq]
  exact afterRest

theorem seq (first : Follows losses x current trace .finished holding)
    (second : ∀ current', Approx losses false holding current' →
      Follows losses x current' trace' outcome holding') :
    Follows losses x current (trace ++ trace') outcome holding' := by
  obtain ⟨current', afterFirst, approx, _⟩ := first
  obtain ⟨final, afterSecond, result⟩ := second current' (approx rfl)
  refine ⟨final, ?_, result⟩
  rw [after_append, afterFirst]
  exact afterSecond

theorem close (body : Follows losses x current trace outcome holding)
    (ending : ∀ current', Approx losses false holding current' →
      Follows losses x current' events .finished holding') :
    Follows losses x current (trace ++ closing outcome events) outcome holding' := by
  cases outcome with
  | finished => exact body.seq ending
  | returned | stopped =>
    obtain ⟨current', afterBody, _, returned⟩ := body
    exact ⟨current', by simpa [closing] using afterBody, nofun, returned⟩

theorem weaken (follows : Follows losses x current trace outcome holding)
    (notFinished : outcome ≠ .finished) : Follows losses x current trace outcome holding' := by
  obtain ⟨current', afterEq, _, returned⟩ := follows
  exact ⟨current', afterEq, fun finished => absurd finished notFinished, returned⟩

end Follows

/-! ## Reading -/

theorem after_reading_of_not_mem (unread : uses.count x = 0) :
    after losses x current (reading uses) = some current := by
  induction uses with
  | nil => rfl
  | cons name _ ih =>
    rw [count_cons] at unread
    have differentName : name ≠ x := by
      intro sameName
      simp [sameName] at unread
    rw [reading, map_cons, after_cons, step_of_ne (.use name) differentName]
    exact ih (by omega)

theorem after_reading_untracked (uses : List Identifier) :
    after losses x .untracked (reading uses) = some .untracked := by
  induction uses with
  | nil => rfl
  | cons _ _ ih =>
    rw [reading, map_cons, after_cons, step]
    split
    · exact ih
    · exact ih

theorem after_reading_once (readOnce : uses.count x = 1) :
    after losses x (.held ty) (reading uses) = some (.empty ty) := by
  induction uses with
  | nil => simp at readOnce
  | cons name _ ih =>
    rw [reading, map_cons, after_cons, step]
    by_cases sameName : name = x
    · rw [if_pos sameName]
      rw [sameName, count_cons_self] at readOnce
      exact after_reading_of_not_mem (by omega)
    · rw [if_neg sameName]
      rw [count_cons_of_ne sameName] at readOnce
      exact ih readOnce

theorem approx_untracked (approx : Approx losses false .untracked current) :
    current = .untracked := by
  cases approx
  rfl

/-- The list of expressions at the head of a statement. -/
def spentByAll (x : Identifier) (exprs : List TExpr) (holding : Holding) : Holding :=
  exprs.foldl (fun holding expr => spentBy x expr holding) holding

def VarView.readAll (x : Identifier) (depth : Nat) (exprs : List TExpr) (view : VarView) :
    Option VarView :=
  exprs.foldlM (fun view expr => view.read depth (count x expr)) view

open VarView

def steadyExprs (x : Identifier) (losses : Bool) : List TExpr → Holding → Bool
  | [], _ => true
  | expr :: exprs, holding =>
    steadyExpr x losses expr holding && steadyExprs x losses exprs (spentBy x expr holding)

section

variable (inStep : InStep depth view holding)
include inStep

/-- An accepted expression has at most one appearance of a variable with a
value, and none of a variable without. -/
theorem count_of_read (read : view.read depth (count x expr) = some view') :
    (∀ ty, holding = .held ty → count x expr ≤ 1) ∧
      (∀ ty, holding = .empty ty → count x expr = 0) := by
  cases inStep with
  | untracked => exact ⟨nofun, nofun⟩
  | held present sameTy linear =>
    refine ⟨fun _ _ => ?_, nofun⟩
    by_contra tooMany
    subst sameTy
    have notOnce : count x expr ≠ 1 := by omega
    have notZero : count x expr ≠ 0 := by omega
    simp [VarView.read, present, linear, notOnce, notZero] at read
  | @empty row ty present sameTy linear consumed =>
    refine ⟨nofun, fun _ _ => ?_⟩
    by_contra readAgain
    subst sameTy
    simp [VarView.read, present, linear, consumed, readAgain] at read

theorem untracked_of_enter (entered : view.enter ty depth = some view') :
    holding = .untracked := by
  have absent := (enter_eq_some entered).1
  cases inStep with
  | untracked => rfl
  | held present | empty present => simp [absent] at present

variable (approx : Approx losses false holding current)
include approx

theorem follows_read (reads : Reads expr uses finishes)
    (read : view.read depth (count x expr) = some view')
    (isSteady : steadyExpr x losses expr holding = true) :
    Follows losses x current (reading uses) (ending finishes) (spentBy x expr holding) := by
  obtain ⟨_, atLeast⟩ := reads.count_bounds x
  obtain ⟨onceIfHeld, noneIfEmpty⟩ := count_of_read inStep read
  by_cases notUsed : uses.count x = 0
  · -- The variable is not read, although it may appear in an operand that is
    -- not evaluated.
    refine ⟨current, after_reading_of_not_mem notUsed, fun finished => ?_, ?_⟩
    · have isFinished : finishes = true := by
        cases finishes
        · cases finished
        · rfl
      have := atLeast isFinished
      by_cases unread : count x expr = 0
      · rwa [spentBy_of_zero unread]
      · cases approx with
        | unspent => exact absurd (noneIfEmpty _ rfl) unread
        | exact =>
          cases holding with
          | untracked =>
            rw [spentBy_untracked]
            exact .exact
          | empty ty => exact absurd (noneIfEmpty ty rfl) unread
          | held =>
            rw [spentBy_held unread]
            refine .unspent ?_
            cases losses with
            | false => rfl
            | true =>
              simp only [steadyExpr, isTracked, Bool.not_true, Bool.false_or,
                decide_eq_true_eq] at isSteady
              omega
    · cases finishes <;> rintro ⟨⟩
  · have readBy : count x expr ≠ 0 := by omega
    cases approx with
    | unspent => exact absurd (noneIfEmpty _ rfl) readBy
    | exact =>
      cases holding with
      | untracked =>
        rw [spentBy_untracked]
        refine ⟨.untracked, after_reading_untracked uses, fun _ => .exact, ?_⟩
        cases finishes <;> rintro ⟨⟩
      | empty ty => exact absurd (noneIfEmpty ty rfl) readBy
      | held ty =>
        have := onceIfHeld ty rfl
        rw [spentBy_held readBy]
        refine ⟨.empty ty, after_reading_once (by omega), fun _ => .exact, ?_⟩
        cases finishes <;> rintro ⟨⟩

theorem follows_readAll (reads : ReadsAll Reads exprs uses finishes)
    (read : view.readAll x depth exprs = some view')
    (areSteady : steadyExprs x losses exprs holding = true) :
    Follows losses x current (reading uses) (ending finishes) (spentByAll x exprs holding) := by
  induction reads generalizing view holding current with
  | nil => exact .nil approx
  | cons readsFirst _ ih =>
    rw [readAll, foldlM_cons] at read
    obtain ⟨_, readFirst, readRest⟩ := Option.bind_eq_some_iff.mp read
    rw [steadyExprs, Bool.and_eq_true] at areSteady
    rw [reading, map_append]
    refine (follows_read inStep approx readsFirst readFirst areSteady.1).seq ?_
    intro _ nextApprox
    exact ih (inStep.read readFirst) nextApprox readRest areSteady.2
  | stops readsFirst =>
    rw [readAll, foldlM_cons] at read
    obtain ⟨_, readFirst, _⟩ := Option.bind_eq_some_iff.mp read
    rw [steadyExprs, Bool.and_eq_true] at areSteady
    exact (follows_read inStep approx readsFirst readFirst areSteady.1).weaken nofun

theorem follows_fill
    (fillable : view.row.isSome = true → ∃ view', whenNamed x name fill view = some view') :
    Follows losses x current [.fill name] .finished (refilled x name holding) := by
  by_cases sameName : name = x
  · subst sameName
    cases approx with
    | unspent notCounted =>
      rw [refilled_empty]
      exact .finished (by simp [after_cons, step, notCounted]) .exact
    | exact =>
      cases inStep with
      | untracked =>
        rw [refilled_untracked]
        exact .finished (by simp [after_cons, step]) .exact
      | @empty row ty =>
        rw [refilled_empty]
        exact .finished (by simp [after_cons, step]) .exact
      | @held row ty present sameTy linear notConsumed =>
        -- The checker rejects an assignment to a variable that has a value.
        obtain ⟨_, filled⟩ := fillable (by simp [present])
        subst sameTy
        simp [whenNamed, VarView.fill, present, notConsumed, linear] at filled
  · rw [refilled_of_ne sameName]
    exact .finished (by simp [after_cons, step_of_ne (.fill name) sameName]) approx

theorem step_enter (entered : whenNamed x name (enter ty depth) view = some view') :
    step losses x current (.enter name ty) =
      some (if name = x then Holding.entered ty else current) := by
  by_cases sameName : name = x
  · rw [whenNamed, if_pos sameName] at entered
    rw [untracked_of_enter inStep entered] at approx
    rw [approx_untracked approx, step, if_pos sameName, if_pos sameName]
    simp [isHeld]
  · rw [if_neg sameName]
    exact step_of_ne (.enter name ty) sameName

theorem follows_opening (entered : whenNamed x name (enter ty depth) view = some view') :
    Follows losses x current (opening name ty) .finished (declared x name ty holding) := by
  have enters := step_enter inStep approx entered
  by_cases sameName : name = x
  · rw [declared, if_pos sameName]
    rw [if_pos sameName] at enters
    refine .finished ?_ .exact
    rw [opening, after_cons, enters, Option.bind_some, after_cons, Holding.entered]
    cases isLinear ty <;> simp [step, sameName]
  · rw [declared_of_ne sameName]
    rw [if_neg sameName] at enters
    refine .finished ?_ approx
    rw [opening, after_cons, enters, Option.bind_some, after_cons, step_of_ne (.fill name) sameName]
    rfl

theorem follows_openingAll (entered : trackBindings x depth bindings view = some view') :
    Follows losses x current (openingAll bindings) .finished (declaredAll x bindings holding) := by
  induction bindings generalizing view holding current with
  | nil => exact .nil approx
  | cons _ _ ih =>
    rw [trackBindings, foldlM_cons] at entered
    obtain ⟨_, enteredFirst, enteredRest⟩ := Option.bind_eq_some_iff.mp entered
    rw [openingAll, flatMap_cons]
    refine (follows_opening inStep approx enteredFirst).seq ?_
    intro _ nextApprox
    exact ih (inStep.enter enteredFirst) nextApprox enteredRest

end

/-! ## Filling and leaving -/

section

variable (approx : Approx losses false holding current)
include approx

theorem eq_of_approx (counted : losses = true) : current = holding := by
  cases approx with
  | exact => rfl
  | unspent notCounted => rw [counted] at notCounted; cases notCounted

theorem approx_declared : Approx losses (name = x && isLinear ty) (declared x name ty holding)
      (if name = x then entered ty else current) := by
  by_cases sameName : name = x
  · rw [declared, if_pos sameName, if_pos sameName, decide_eq_true sameName, Bool.true_and, entered]
    cases isLinear ty with
    | true => exact .uninitialised
    | false => exact .exact
  · rw [declared_of_ne sameName, if_neg sameName, decide_eq_false sameName]
    exact approx

/-- A value that is given to a variable at an unusual place: it is only kept
track of where losses count. -/
theorem follows_extra_fill (allowed : losses = false ∨ name ≠ x ∨ holding.isTracked = false) :
    Follows losses x current [.fill name] .finished holding := by
  by_cases sameName : name = x
  · subst sameName
    cases approx with
    | unspent notCounted =>
      exact .finished (by simp [after_cons, step, notCounted]) (.unspent notCounted)
    | exact =>
      cases holding with
      | untracked => exact .finished (by simp [after_cons, step]) .exact
      | empty =>
        have notCounted : losses = false := by simpa [isTracked] using allowed
        exact .finished (by simp [after_cons, step]) (.unspent notCounted)
      | held =>
        have notCounted : losses = false := by simpa [isTracked] using allowed
        exact .finished (by simp [after_cons, step, notCounted]) .exact
  · exact .finished (by simp [after_cons, step_of_ne (.fill name) sameName]) approx

theorem follows_leaving (noLoss : x ∈ names → losses = true → holding.losing = false) :
    Follows losses x current (leavingAll names) .finished (ended x names holding) := by
  induction names generalizing holding current with
  | nil => exact .nil approx
  | cons name names ih =>
    rw [leavingAll, map_cons]
    by_cases sameName : name = x
    · have goes : step losses x current (.leave name) = some .untracked := by
        rw [step, if_pos sameName]
        cases losses with
        | false => rfl
        | true =>
          cases approx with
          | exact => rw [noLoss (by simp [sameName]) rfl]; rfl
          | unspent notCounted => cases notCounted
      have rest := ih (.exact : Approx losses false .untracked .untracked) fun _ _ => rfl
      rw [ended_of_mem (by simp [sameName])]
      rw [ended_untracked] at rest
      exact rest.cons goes
    · have rest := ih approx fun member => noLoss (mem_cons_of_mem _ member)
      have sameEnd : ended x (name :: names) holding = ended x names holding := by
        simp [ended, Ne.symm sameName]
      rw [sameEnd]
      exact rest.cons (step_of_ne (.leave name) sameName)

end

end Events

/-! ## Statements -/

section Statements

variable {losses uninit : Bool} {x name : Identifier} {depth : Nat} {view view' : VarView}
  {holding current : Holding} {stmt : TStmt} {uses : List Identifier} {condition : TExpr}
section

variable (inStep : InStep depth view holding)
include inStep

theorem not_losing_of_leave (left : view.leave = some view') : holding.losing = false := by
  cases inStep with
  | untracked | empty => rfl
  | @held row ty present sameTy linear notConsumed =>
    subst sameTy
    simp only [VarView.leave, present] at left
    split at left
    · rename_i allowed
      simpa [notConsumed, linear, losing] using allowed
    · cases left

theorem not_losing_of_returnable (returnable : view.returnable = true) :
    holding.losing = false := by
  cases inStep with
  | untracked | empty => rfl
  | @held row ty present sameTy linear notConsumed =>
    subst sameTy
    simpa [VarView.returnable, present, notConsumed, linear, losing] using returnable

theorem follows_scope_end (left : trackLeaving x names view = some view')
    (approx : Approx losses false holding current) :
    Follows losses x current (leavingAll names) .finished (ended x names holding) :=
  follows_leaving approx fun member _ =>
    not_losing_of_leave inStep (leave_of_trackLeaving member left)

end

theorem follows_block_end (isSteady : steadyEnd x losses block holding = true)
    (approx : Approx losses false holding current) :
    Follows losses x current (leavingAll (temporaries block)) .finished
      (ended x (temporaries block) holding) := by
  refine follows_leaving approx fun member count => ?_
  simpa [steadyEnd, member, count] using isSteady

theorem step_borrow (inStep : InStep depth view holding)
    (started : startBorrow x original mode view = some during)
    (initialised : uninit = true → original ≠ x) (approx : Approx losses uninit holding current) :
    step losses x current (.borrow original) = some current := by
  by_cases isOriginal : original = x
  · rw [startBorrow, if_pos isOriginal] at started
    obtain ⟨_, borrowEq, _⟩ := Option.map_eq_some_iff.mp started
    obtain ⟨row, present, unborrowed, _⟩ := borrow_eq_some borrowEq
    have notEmpty : ∀ ty, holding ≠ .empty ty := by
      rintro _ rfl
      cases inStep with
      | @empty row' _ present' _ _ consumed =>
        obtain rfl : row = row' := Option.some.inj (present.symm.trans present')
        exact unborrowed consumed
    cases approx with
    | exact =>
      cases holding with
      | empty ty => exact absurd rfl (notEmpty ty)
      | untracked | held => exact if_pos isOriginal
    | unspent => exact absurd rfl (notEmpty _)
    | uninitialised => exact absurd isOriginal (initialised rfl)
  · exact step_of_ne (.borrow original) isOriginal

theorem follows_rounds {rounds : List (List OwnEvent)}
    (kept : ended x (temporaries body) (flow x body holding) = holding)
    (bodyEnd : steadyEnd x losses body (flow x body holding) = true)
    (each : ∀ round ∈ rounds, ∀ current, Approx losses false holding current →
      Follows losses x current round .finished (flow x body holding))
    (approx : Approx losses false holding current) :
    Follows losses x current (rounds.flatMap fun round => round ++ leavingAll (temporaries body))
      .finished holding := by
  induction rounds generalizing current with
  | nil => exact .nil approx
  | cons round _ ih =>
    rw [flatMap_cons, append_assoc]
    refine (each round mem_cons_self current approx).seq fun _ bodyApprox => ?_
    refine (follows_block_end bodyEnd bodyApprox).seq fun _ roundApprox => ?_
    exact ih (forall_mem_cons.mp each).2 (kept ▸ roundApprox)

theorem readAll_heads (tracked : track x depth stmt view = some view') :
    ∃ readView, view.readAll x depth (heads stmt) = some readView := by
  have one : ∀ {expr : TExpr} {next : VarView → Option VarView},
      (view.read depth (count x expr)).bind next = some view' →
      ∃ readView, view.readAll x depth [expr] = some readView := by
    intro _ _ bound
    obtain ⟨readView, read, _⟩ := Option.bind_eq_some_iff.mp bound
    exact ⟨readView, by simp [VarView.readAll, read]⟩
  cases stmt with
  | assign =>
    obtain ⟨_, readLvalue, readValue⟩ := track_assign tracked
    exact ⟨view', by simp [VarView.readAll, heads, readLvalue, readValue]⟩
  | forStmt =>
    obtain ⟨_, finalView, readStart, readFinal, _⟩ := track_forStmt tracked
    exact ⟨finalView, by simp [VarView.readAll, heads, readStart, readFinal]⟩
  | initialAssign | discarding =>
    exact ⟨view', by simpa [VarView.readAll, heads, track] using tracked⟩
  | skip | letStmt | letTmp | borrow | block => exact ⟨view, rfl⟩
  | _ => exact one (by simpa [track] using tracked)

theorem steadyExprs_heads (isSteady : steady x losses false stmt holding = true) :
    steadyExprs x losses (heads stmt) holding = true := by
  cases stmt <;>
    simp_all [steady, heads, steadyExprs]
  case whileStmt condition body =>
    rcases isSteady.1.1.1 with notTracked | unread
    · simp [steadyExpr, notTracked]
    · simp [steadyExpr, unread]

theorem reads_of_uninit (isSteady : steady x losses true stmt holding = true)
    (reads : ReadsAll Reads (heads stmt) uses finishes) : uses.count x = 0 := by
  have atMost := (reads.count_bounds x fun _ _ _ _ reads => reads.count_bounds x).1
  have unread : ((heads stmt).map (count x)).sum = 0 := by cases stmt <;> simp_all [steady, heads]
  omega

section

variable (inStep : InStep depth view holding) (approx : Approx losses false holding current)
include inStep approx

theorem follows_head (reads : ReadsAll Reads [expr] uses true)
    (read : view.read depth (count x expr) = some view')
    (isSteady : steadyExpr x losses expr holding = true) :
    Follows losses x current (reading uses) .finished (spentBy x expr holding) :=
  follows_readAll inStep approx reads (by simpa [VarView.readAll] using read)
    (by simpa [steadyExprs] using isSteady)

theorem follows_heads (reads : ReadsAll Reads [first, second] uses true)
    (readFirst : view.read depth (count x first) = some between)
    (readSecond : between.read depth (count x second) = some view')
    (firstSteady : steadyExpr x losses first holding = true)
    (secondSteady : steadyExpr x losses second (spentBy x first holding) = true) :
    Follows losses x current (reading uses) .finished
      (spentBy x second (spentBy x first holding)) := by
  have readBoth : view.readAll x depth [first, second] = some view' := by
    simp [VarView.readAll, readFirst, readSecond]
  exact follows_readAll inStep approx reads readBoth
    (by simp [steadyExprs, firstSteady, secondSteady])

end

section

variable (unread : (!holding.isTracked || decide (count x condition = 0)) = true)
include unread

theorem spentBy_condition : spentBy x condition holding = holding := by
  cases holding with
  | untracked => exact spentBy_untracked condition
  | _ => exact spentBy_of_zero (by simpa [isTracked] using unread) _

theorem steadyExpr_condition : steadyExpr x losses condition holding = true := by
  rw [Bool.or_eq_true] at unread
  rcases unread with notTracked | isZero
  · simp [steadyExpr, notTracked]
  · simp [steadyExpr, of_decide_eq_true isZero]

end

theorem while_keeps (inStep : InStep depth view holding)
    (tracked : track x depth (.whileStmt condition body) view = some view')
    (unread : (!holding.isTracked || decide (count x condition = 0)) = true)
    (keeps : steadyLoop (spentBy x condition holding)
      (flow x body (spentBy x condition holding)) = true) :
    flow x (.whileStmt condition body) holding = spentBy x condition holding := by
  obtain ⟨_, read, bodyEq, noneNew⟩ := track_whileStmt tracked
  refine loop_keeps (inStep.read read) bodyEq (fun isTracked pending => ?_) keeps
  rw [isTracked_spentBy] at isTracked
  have isZero : count x condition = 0 := by simpa [isTracked] using unread
  rw [isZero] at read
  rw [eq_of_read_zero read]
  exact noneNew pending

theorem for_keeps (inStep : InStep depth view holding)
    (tracked : track x depth (.forStmt name start final body) view = some view')
    (keeps : steadyLoop (spentBy x final (spentBy x start holding))
      (flow x body (spentBy x final (spentBy x start holding))) = true) :
    flow x (.forStmt name start final body) holding =
      spentBy x final (spentBy x start holding) := by
  obtain ⟨_, _, readStart, readFinal, bodyEq, noneNew⟩ := track_forStmt tracked
  exact loop_keeps ((inStep.read readStart).read readFinal) bodyEq (fun _ => noneNew) keeps

theorem steadyEnd_ended (isSteady : steadyEnd x losses block holding = true)
    (names : List Identifier) : steadyEnd x losses block (ended x names holding) = true := by
  by_cases member : x ∈ names
  · rw [ended_of_mem member]
    simp [steadyEnd, losing]
  · rwa [ended_of_not_mem member]

theorem follows_letTmp (reads : Reads value uses finishes)
    (inStep : InStep depth view (declared x name ty holding))
    (read : view.read depth (count x value) = some view')
    (noSelf : (decide (name ≠ x) || !isLinear ty || decide (count x value = 0)) = true)
    (valueSteady : steadyExpr x losses value (declared x name ty holding) = true)
    (approx : Approx losses (name = x && isLinear ty) (declared x name ty holding) current) :
    Follows losses x current (reading uses ++ closing (ending finishes) [.fill name])
      (ending finishes) (spentBy x value (declared x name ty holding)) := by
  by_cases fresh : name = x ∧ isLinear ty = true
  · obtain ⟨sameName, linear⟩ := fresh
    have unread : count x value = 0 := by simpa [sameName, linear] using noSelf
    have notUsed : uses.count x = 0 := by
      have := (reads.count_bounds x).1
      omega
    simp only [sameName, linear, decide_true, Bool.and_self, declared, if_true] at approx
    rw [spentBy_of_zero unread, declared, if_pos sameName, if_pos linear]
    cases approx
    cases finishes with
    | true =>
      refine .finished ?_ .exact
      rw [after_append, after_reading_of_not_mem notUsed]
      simp [closing, ending, after_cons, step, sameName]
    | false => exact .stopped (by simpa [closing, ending] using after_reading_of_not_mem notUsed)
  · have notFresh : (decide (name = x) && isLinear ty) = false := by simpa using fresh
    rw [notFresh] at approx
    refine (follows_read inStep approx reads read valueSteady).close fun _ readApprox => ?_
    refine follows_extra_fill readApprox (.inr ?_)
    by_cases sameName : name = x
    · refine .inr ?_
      have notLinear : isLinear ty = false := by simpa [sameName] using fresh
      simp [declared, sameName, notLinear, isTracked]
    · exact .inl sameName

theorem after_opening (inStep : InStep depth view holding)
    (entered : whenNamed x name (VarView.enter ty depth) view = some view')
    (approx : Approx losses uninit holding current) :
    ∃ next, after losses x current (opening name ty) = some next ∧
      Approx losses uninit (declared x name ty holding) next := by
  cases uninit with
  | false =>
    obtain ⟨next, afterEq, finished, _⟩ := follows_opening inStep approx entered
    exact ⟨next, afterEq, finished rfl⟩
  | true =>
    cases approx with
    | @uninitialised valueTy =>
      have differentName := (ne_of_enter (inStep.row_isSome rfl) entered).1
      refine ⟨.empty valueTy, ?_, ?_⟩
      · rw [opening, after_cons, step_of_ne (.enter name ty) differentName, Option.bind_some,
          after_cons, step_of_ne (.fill name) differentName]
        rfl
      · rw [declared_of_ne differentName]
        exact .uninitialised

theorem follows_runs {trace : List OwnEvent} {outcome : RunOutcome}
    (runs : Runs stmt trace outcome) (inStep : InStep depth view holding)
    (tracked : track x depth stmt view = some view')
    (isSteady : steady x losses uninit stmt holding = true)
    (approx : Approx losses uninit holding current) :
    Follows losses x current trace outcome (flow x stmt holding) := by
  induction runs generalizing depth view view' holding current uninit with
    try (have parts := isSteady; simp only [steady, Bool.and_eq_true, Bool.not_eq_true'] at parts)
  | stops => exact .stopped rfl
  | headStops reads =>
    cases uninit with
    | true => exact .stopped (after_reading_of_not_mem (reads_of_uninit isSteady reads))
    | false =>
      obtain ⟨_, read⟩ := readAll_heads tracked
      have followsRead := follows_readAll inStep approx reads read (steadyExprs_heads isSteady)
      exact followsRead.weaken (by rintro ⟨⟩)
  | skip =>
    subst parts
    exact .nil approx
  | letStmt _ ih =>
    obtain ⟨_, _, enteredEq, bodyEq, leftEq⟩ := track_letStmt tracked
    obtain ⟨rfl, bodySteady⟩ := parts
    have enteredInStep := inStep.enterAll enteredEq
    have bodyInStep := inStep_track enteredInStep bodyEq
    rw [trackBindings_singleton] at enteredEq
    refine Follows.cons (step_enter inStep approx enteredEq) ?_
    refine (ih enteredInStep bodyEq bodySteady (approx_declared approx)).close ?_
    intro _ bodyApprox
    exact follows_scope_end bodyInStep leftEq bodyApprox
  | letTmp reads =>
    obtain ⟨_, enteredEq, read⟩ := track_letTmp tracked
    obtain ⟨⟨rfl, noSelf⟩, valueSteady⟩ := parts
    exact .cons (step_enter inStep approx enteredEq)
      (follows_letTmp reads (inStep.enter enteredEq) read noSelf valueSteady
        (approx_declared approx))
  | assignTmp reads =>
    obtain ⟨_, read, filled, _⟩ := track_assignTmp tracked
    obtain ⟨rfl, valueSteady⟩ := parts
    refine (follows_head inStep approx reads read valueSteady).seq fun next nextApprox => ?_
    exact follows_fill (inStep.read read) nextApprox fun present => ⟨view', filled present⟩
  | destructure reads _ ih =>
    obtain ⟨_, read, _, _, enteredEq, bodyEq, leftEq⟩ := track_destructure tracked
    obtain ⟨⟨rfl, valueSteady⟩, bodySteady⟩ := parts
    have readInStep := inStep.read read
    have enteredInStep := readInStep.enterAll enteredEq
    refine (follows_head inStep approx reads read valueSteady).seq fun _ readApprox => ?_
    refine (follows_openingAll readInStep readApprox enteredEq).seq fun _ openApprox => ?_
    refine (ih enteredInStep bodyEq bodySteady openApprox).close fun _ bodyApprox => ?_
    exact follows_scope_end (inStep_track enteredInStep bodyEq) leftEq bodyApprox
  | assign reads =>
    obtain ⟨_, readLvalue, readValue⟩ := track_assign tracked
    obtain ⟨⟨rfl, lvalueSteady⟩, valueSteady⟩ := parts
    exact follows_heads inStep approx reads readLvalue readValue lvalueSteady valueSteady
  | assignVar reads =>
    obtain ⟨_, read, filled⟩ := track_assignVar tracked
    obtain ⟨rfl, valueSteady⟩ := parts
    refine (follows_head inStep approx reads read valueSteady).seq fun next nextApprox => ?_
    exact follows_fill (inStep.read read) nextApprox fun _ => ⟨view', filled⟩
  | initialAssign reads =>
    rw [track] at tracked
    cases uninit with
    | true =>
      have notUsed := reads_of_uninit isSteady reads
      simp only [steady, if_true, Bool.and_eq_true, decide_eq_true_eq] at isSteady
      obtain ⟨sameName, unread⟩ := isSteady
      rw [flow, spentBy_of_zero unread]
      cases approx
      refine .finished ?_ .exact
      rw [after_append, after_reading_of_not_mem notUsed]
      simp [after_cons, step, sameName]
    | false =>
      simp only [steady, Bool.false_eq_true, if_false, Bool.and_eq_true, Bool.or_eq_true,
        Bool.not_eq_true', decide_eq_true_eq, or_assoc] at isSteady
      refine (follows_head inStep approx reads tracked isSteady.2).seq fun _ readApprox => ?_
      refine follows_extra_fill readApprox ?_
      rw [flow, isTracked_spentBy]
      exact isSteady.1
  | ifArm reads member _ ih =>
    obtain ⟨_, _, read, trueEq, falseEq, consistent⟩ := track_ifStmt tracked
    obtain ⟨⟨⟨⟨⟨rfl, conditionSteady⟩, trueSteady⟩, falseSteady⟩, trueEnd⟩, falseEnd⟩ := parts
    have readInStep := inStep.read read
    refine (follows_head inStep approx reads read conditionSteady).seq fun _ readApprox => ?_
    rcases mem_pair.mp member with rfl | rfl
    · refine (ih readInStep trueEq trueSteady readApprox).close fun _ armApprox => ?_
      exact follows_block_end trueEnd armApprox
    · rw [flow, ← arms_agree readInStep trueEq falseEq consistent]
      refine (ih readInStep falseEq falseSteady readApprox).close fun _ armApprox => ?_
      exact follows_block_end falseEnd armApprox
  | @caseArm _ _ _ arm _ _ _ reads member _ ih =>
    obtain ⟨_, _, read, viewsEq, consistent, rfl⟩ := track_caseStmt tracked
    obtain ⟨⟨⟨rfl, scrutineeSteady⟩, armsSteady⟩, agree⟩ := parts
    have readInStep := inStep.read read
    rw [flow, ← whens_agree readInStep viewsEq consistent agree arm member]
    obtain ⟨_, armEq⟩ := mem_of_trackWhens viewsEq member
    obtain ⟨bodySteady, bodyEnd⟩ := steadyWhen_of_mem member armsSteady
    obtain ⟨_, _, enteredEq, bodyEq, leftEq⟩ := track_when armEq
    obtain ⟨_, _, _⟩ := arm
    have enteredInStep := readInStep.enterAll enteredEq
    refine (follows_head inStep approx reads read scrutineeSteady).seq fun _ readApprox => ?_
    refine (follows_openingAll readInStep readApprox enteredEq).seq fun _ openApprox => ?_
    refine (ih enteredInStep bodyEq bodySteady openApprox).close fun _ bodyApprox => ?_
    refine (follows_scope_end (inStep_track enteredInStep bodyEq) leftEq bodyApprox).seq
      fun _ leftApprox => ?_
    exact follows_block_end (steadyEnd_ended bodyEnd _) leftApprox
  | whileExits reads =>
    obtain ⟨_, read, _⟩ := track_whileStmt tracked
    obtain ⟨⟨⟨⟨rfl, unread⟩, _⟩, _⟩, keeps⟩ := parts
    rw [while_keeps inStep tracked unread keeps]
    exact follows_head inStep approx reads read (steadyExpr_condition unread)
  | whileLeaves reads _ notFinished ih =>
    obtain ⟨_, read, bodyEq, _⟩ := track_whileStmt tracked
    obtain ⟨⟨⟨⟨rfl, unread⟩, bodySteady⟩, _⟩, _⟩ := parts
    refine (follows_head inStep approx reads read (steadyExpr_condition unread)).seq
      fun _ readApprox => ?_
    exact (ih (inStep.read read).succ bodyEq bodySteady readApprox).weaken notFinished
  | whileIterates reads _ _ ih ihRest =>
    obtain ⟨_, read, bodyEq, _⟩ := track_whileStmt tracked
    have again := fun current =>
      @ihRest uninit depth view view' holding current inStep tracked isSteady
    obtain ⟨⟨⟨⟨rfl, unread⟩, bodySteady⟩, bodyEnd⟩, keeps⟩ := parts
    have kept := while_keeps inStep tracked unread keeps
    rw [flow] at kept
    refine (follows_head inStep approx reads read (steadyExpr_condition unread)).seq
      fun _ readApprox => ?_
    refine (ih (inStep.read read).succ bodyEq bodySteady readApprox).seq fun _ bodyApprox => ?_
    refine (follows_block_end bodyEnd bodyApprox).seq fun _ roundApprox => ?_
    rw [kept, spentBy_condition unread] at roundApprox
    exact again _ roundApprox
  | forExits reads _ ih =>
    obtain ⟨_, _, readStart, readFinal, bodyEq, _⟩ := track_forStmt tracked
    obtain ⟨⟨⟨⟨⟨rfl, startSteady⟩, finalSteady⟩, bodySteady⟩, bodyEnd⟩, keeps⟩ := parts
    have finalInStep := (inStep.read readStart).read readFinal
    rw [for_keeps inStep tracked keeps]
    refine (follows_heads inStep approx reads readStart readFinal startSteady finalSteady).seq
      fun _ readApprox => ?_
    exact follows_rounds (for_keeps inStep tracked keeps) bodyEnd
      (fun round member _ => ih round member finalInStep.succ bodyEq bodySteady) readApprox
  | forLeaves reads _ _ notFinished ih ihLast =>
    obtain ⟨_, _, readStart, readFinal, bodyEq, _⟩ := track_forStmt tracked
    obtain ⟨⟨⟨⟨⟨rfl, startSteady⟩, finalSteady⟩, bodySteady⟩, bodyEnd⟩, keeps⟩ := parts
    have finalInStep := (inStep.read readStart).read readFinal
    refine (follows_heads inStep approx reads readStart readFinal startSteady finalSteady).seq
      fun _ readApprox => ?_
    refine (follows_rounds (for_keeps inStep tracked keeps) bodyEnd
      (fun round member _ => ih round member finalInStep.succ bodyEq bodySteady)
      readApprox).seq fun _ roundsApprox => ?_
    exact (ihLast finalInStep.succ bodyEq bodySteady roundsApprox).weaken notFinished
  | @borrow original rename _ _ _ _ _ trace outcome _ ih =>
    obtain ⟨_, _, _, startEq, enteredEq, bodyEq, leftEq⟩ := track_borrow tracked
    obtain ⟨initialised, bodySteady⟩ := parts
    have duringInStep := inStep_startBorrow inStep startEq
    have enteredInStep := duringInStep.enter enteredEq
    have restoredInStep := inStep_restoreBorrow startEq enteredEq bodyEq
      (inStep_track enteredInStep bodyEq)
    rw [← trackLeaving_singleton] at leftEq
    have initialised' : uninit = true → original ≠ x := by
      intro isUninit
      simpa [isUninit] using initialised
    refine .cons (step_borrow inStep startEq initialised' approx) ?_
    obtain ⟨next, opened, openApprox⟩ := after_opening duringInStep enteredEq approx
    have body : Follows losses x next (trace ++ closing outcome [.leave rename]) outcome _ :=
      (ih enteredInStep bodyEq bodySteady openApprox).close fun _ bodyApprox =>
        follows_scope_end restoredInStep leftEq bodyApprox
    obtain ⟨final, afterBody, result⟩ := body
    refine ⟨final, ?_, result⟩
    rw [after_append, opened]
    exact afterBody
  | blockFirst _ notFinished ih =>
    obtain ⟨_, firstEq, _⟩ := track_block tracked
    exact (ih inStep firstEq parts.1 approx).weaken notFinished
  | blockSecond _ _ ihFirst ihSecond =>
    obtain ⟨_, firstEq, secondEq⟩ := track_block tracked
    refine (ihFirst inStep firstEq parts.1 approx).seq fun _ firstApprox => ?_
    exact ihSecond (inStep_track inStep firstEq) secondEq parts.2 firstApprox
  | discarding reads =>
    rw [track] at tracked
    obtain ⟨rfl, valueSteady⟩ := parts
    exact follows_head inStep approx reads tracked valueSteady
  | returnStmt reads =>
    obtain ⟨read, returnable⟩ := track_returnStmt tracked
    obtain ⟨rfl, valueSteady⟩ := parts
    obtain ⟨next, afterEq, finished, _⟩ := follows_head inStep approx reads read valueSteady
    refine ⟨next, afterEq, by rintro ⟨⟩, fun _ counted => ?_⟩
    rw [eq_of_approx (finished rfl) counted]
    exact not_losing_of_returnable (inStep.read read) returnable

end Statements

end AustralVM
