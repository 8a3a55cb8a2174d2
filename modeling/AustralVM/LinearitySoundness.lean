import AustralVM.OwnershipSafety

/-!
# What the linearity checker guarantees

A body that the checker accepts and that is steady is safe in all its runs: no
value is used or borrowed after it was consumed, and, where the body is also
steady about losses, no value is lost.
-/

namespace AustralVM

open OwnEvent

/-! ## From the checker to the flow -/

/-- The parameters of a function come into scope like bindings. -/
def paramBindings (params : List ValueParameter) : List TypedBinding :=
  params.map fun param => ⟨param.name, param.ty, param.name⟩

/-- What a variable holds when the body of a function starts. -/
def paramsHolding (x : Identifier) (params : List ValueParameter) : Holding :=
  declaredAll x (paramBindings params) .untracked

/-- A function body that is steady for every variable. -/
def SteadyBody (losses : Bool) (params : List ValueParameter) (body : TStmt) : Prop :=
  ∀ x, steady x losses false body (paramsHolding x params) = true

theorem initTbl_eq (tbl : StateTbl) (params : List ValueParameter) :
    initTbl tbl params = addBindingEntries tbl 0 (paramBindings params) := by
  rw [initTbl, addBindingEntries, paramBindings, List.foldlM_map]

theorem linearityCheck_eq_ok {name kind : String}
    (accepted : linearityCheck name kind params body state = .ok (result, state')) :
    ∃ start tbl opened tbl' finished,
      addBindingEntries .emptyTbl 0 (paramBindings params) start = .ok (tbl, opened) ∧
      checkStmt tbl 0 body opened = .ok (tbl', finished) := by
  obtain ⟨_, _, _, accepted⟩ := Check.bind_eq_ok.mp accepted
  obtain ⟨_, start, _, accepted⟩ := Check.bind_eq_ok.mp accepted
  obtain ⟨tbl, opened, initialised, accepted⟩ := Check.bind_eq_ok.mp accepted
  obtain ⟨tbl', finished, checked, _⟩ := Check.bind_eq_ok.mp accepted
  rw [initTbl_eq] at initialised
  exact ⟨start, tbl, opened, tbl', finished, initialised, checked⟩

theorem inStep_emptyTbl (x : Identifier) : InStep 0 (StateTbl.emptyTbl.view x) .untracked :=
  .untracked fun _ => rfl

theorem openingAll_paramBindings (params : List ValueParameter) :
    openingAll (paramBindings params) =
      params.flatMap fun param => opening param.name param.ty := by
  rw [openingAll, paramBindings, List.flatMap_map]

theorem follows_of_accepted {name kind : String} {trace : List OwnEvent} {outcome : RunOutcome}
    (accepted : linearityCheck name kind params body state = .ok (result, state'))
    (isSteady : SteadyBody losses params body) (runs : RunsFunction params body trace outcome)
    (x : Identifier) :
    Follows losses x .untracked trace outcome (flow x body (paramsHolding x params)) := by
  obtain ⟨_, _, _, _, _, initialised, checked⟩ := linearityCheck_eq_ok accepted
  cases runs with
  | run bodyRuns =>
    have entered := view_addBindingEntries (x := x) initialised
    have tracked := view_checkStmt (x := x) checked
    rw [← openingAll_paramBindings]
    refine (follows_openingAll (inStep_emptyTbl x) .exact entered).seq fun _ approx => ?_
    exact follows_runs bodyRuns ((inStep_emptyTbl x).enterAll entered) tracked (isSteady x) approx

/-! ## No value is used twice -/

/-- Every use and every borrow of a linear variable finds a value, one that was
acquired and has not been consumed since. -/
def EveryUseOwned (trace : List OwnEvent) : Prop :=
  ∀ x before event rest, trace = before ++ event :: rest → event = .use x ∨ event = .borrow x →
    ∃ holding, Holding.after false x .untracked before = some holding ∧
      (holding.isTracked = true → holding.isHeld = true)

theorem everyUseOwned_of_follows
    (follows : ∀ x, ∃ holding, Follows false x .untracked trace outcome holding) :
    EveryUseOwned trace := by
  rintro x _ _ _ rfl isUse
  obtain ⟨_, _, afterEq, _⟩ := follows x
  rw [after_append] at afterEq
  obtain ⟨holding, afterBefore, afterEq⟩ := Option.bind_eq_some_iff.mp afterEq
  rw [after_cons] at afterEq
  obtain ⟨_, stepEq, _⟩ := Option.bind_eq_some_iff.mp afterEq
  refine ⟨holding, afterBefore, fun tracked => ?_⟩
  cases holding with
  | untracked => cases tracked
  | held => rfl
  | empty =>
    rcases isUse with rfl | rfl
    · simp [Holding.step] at stepEq
    · simp [Holding.step] at stepEq

/-- In every run of an accepted, steady body, nothing is used or borrowed after
it was consumed. -/
theorem accepted_runs_use_owned {name kind : String} {params : List ValueParameter}
    {body : TStmt} {state state' : CheckState} {result : Unit}
    (accepted : linearityCheck name kind params body state = .ok (result, state'))
    (isSteady : SteadyBody false params body) {trace : List OwnEvent} {outcome : RunOutcome}
    (runs : RunsFunction params body trace outcome) : EveryUseOwned trace :=
  everyUseOwned_of_follows fun x => ⟨_, follows_of_accepted accepted isSteady runs x⟩

/-! A handle is linear, and a shape is a value of a free union. -/

def handleTy : Ty := .namedType ⟨⟨"Example"⟩, ⟨"Handle"⟩, ⟨"Handle"⟩⟩ [] .linear

def shapeTy : Ty := .namedType ⟨⟨"Example"⟩, ⟨"Shape"⟩, ⟨"Shape"⟩⟩ [] .free

def handleAndShape : List ValueParameter := [⟨⟨"handle"⟩, handleTy⟩, ⟨⟨"shape"⟩, shapeTy⟩]

/-- The call `close(handle)`. -/
def closeHandle : TExpr :=
  .funcall ⟨0⟩ ⟨⟨"Example"⟩, ⟨"close"⟩, ⟨"close"⟩⟩ [.paramVar ⟨"handle"⟩ handleTy] .unit .empty

theorem reads_closeHandle : Reads closeHandle [⟨"handle"⟩] true :=
  .operands rfl rfl (.cons (Reads.variableRead rfl) .nil)

/-- A body that does one thing or another by the shape and then returns. -/
def byShape (arms : List (String × TStmt)) (value : TExpr) : TStmt :=
  .block (.caseStmt (.paramVar ⟨"shape"⟩ shapeTy)
    (arms.map fun arm => ⟨⟨arm.1⟩, [], arm.2⟩) .casePlain) (.returnStmt value)

/-- What a run of such a body does that reads some variables in an arm and some
in the result. -/
def shapeTrace (uses uses' : List Identifier) : List OwnEvent :=
  opening ⟨"handle"⟩ handleTy ++ opening ⟨"shape"⟩ shapeTy ++
    (reading [⟨"shape"⟩] ++ reading uses ++ reading uses')

theorem runsFunction_byShape (name : String) (member : (name, .discarding value) ∈ arms)
    (reads : Reads value uses true) (reads' : Reads result uses' true) :
    RunsFunction handleAndShape (byShape arms result) (shapeTrace uses uses') .returned := by
  have readsShape : ReadsAll Reads [.paramVar ⟨"shape"⟩ shapeTy] [⟨"shape"⟩] true :=
    .cons (Reads.variableRead rfl) .nil
  have armRuns : Runs (.discarding value) (reading (uses ++ [])) .finished :=
    .discarding (.cons reads .nil)
  have resultRuns : Runs (.returnStmt result) (reading (uses' ++ [])) .returned :=
    .returnStmt (.cons reads' .nil)
  have armMember := List.mem_map_of_mem
    (f := fun arm : String × TStmt => (⟨⟨arm.1⟩, [], arm.2⟩ : TypedWhen TStmt)) member
  have caseRuns : Runs (.caseStmt _ _ .casePlain) _ .finished :=
    .caseArm readsShape armMember armRuns
  have runs : RunsFunction handleAndShape _ _ .returned := .run (.blockSecond caseRuns resultRuns)
  simpa [byShape, shapeTrace, handleAndShape, openingAll, leavingAll, temporaries, closing] using runs

def closedOnce : TStmt :=
  byShape [("Circle", .discarding closeHandle), ("Square", .discarding closeHandle)] .nilConstant

def closedTwice : TStmt :=
  byShape [("Circle", .skip), ("Square", .skip), ("Line", .discarding closeHandle)] closeHandle

theorem closedOnce_accepted : ∃ state', linearityCheck "f" "function" handleAndShape closedOnce
    ⟨.empty true, []⟩ = .ok ((), state') := by
  obtain ⟨⟨_, state'⟩, accepted⟩ := Comp.exists_eq_ok_of_isOk
    (show (linearityCheck "f" "function" handleAndShape closedOnce ⟨.empty true, []⟩).isOk = true
      by decide +kernel)
  exact ⟨state', accepted⟩

theorem runs_closedOnce :
    RunsFunction handleAndShape closedOnce (shapeTrace [⟨"handle"⟩] []) .returned :=
  runsFunction_byShape "Circle" List.mem_cons_self reads_closeHandle (.operands rfl rfl .nil)

theorem accepted_runs_use_owned_at_closedOnce : ∃ trace,
    RunsFunction handleAndShape closedOnce trace .returned ∧ .use ⟨"handle"⟩ ∈ trace ∧
      EveryUseOwned trace := by
  obtain ⟨_, accepted⟩ := closedOnce_accepted
  have isSteady : SteadyBody false handleAndShape closedOnce := by
    intro _
    simp [closedOnce, byShape, steady, steadyWhens, steadyWhen, steadyExpr, steadyEnd, steadyArms]
  exact ⟨_, runs_closedOnce, by simp [shapeTrace, reading],
    accepted_runs_use_owned accepted isSteady runs_closedOnce⟩

/-- Of a case with three arms only the first two are compared: the body is
accepted, and the run that takes the third arm closes the handle twice. -/
theorem three_arms_close_twice :
    (∃ result, linearityCheck "f" "function" handleAndShape closedTwice ⟨.empty true, []⟩ =
      .ok result) ∧
    ∃ trace, RunsFunction handleAndShape closedTwice trace .returned ∧ ¬ EveryUseOwned trace := by
  have runs : RunsFunction handleAndShape closedTwice (shapeTrace [⟨"handle"⟩] [⟨"handle"⟩])
      .returned :=
    runsFunction_byShape "Line" (by simp) reads_closeHandle reads_closeHandle
  refine ⟨Comp.exists_eq_ok_of_isOk (by decide +kernel), _, runs, fun everyUseOwned => ?_⟩
  obtain ⟨holding, afterEq, owned⟩ := everyUseOwned ⟨"handle"⟩ (shapeTrace [⟨"handle"⟩] [])
    (.use ⟨"handle"⟩) [] (by simp [shapeTrace, reading]) (.inl rfl)
  obtain rfl : holding = .empty handleTy := (Option.some.inj afterEq).symm
  exact Bool.false_ne_true (owned rfl)

/-! ## No value is lost -/

/-- No value is overwritten or goes out of scope while it is owned, and a run
that returns has consumed every value it acquired, in each case save for write
references. -/
def NoValueLost (trace : List OwnEvent) (outcome : RunOutcome) : Prop :=
  ∀ x, ∃ holding, Holding.after true x .untracked trace = some holding ∧
    (outcome = .returned → holding.losing = false)

/-- In every run of an accepted body that is steady about losses, no value is
lost. -/
theorem accepted_runs_lose_nothing {name kind : String} {params : List ValueParameter}
    {body : TStmt} {state state' : CheckState} {result : Unit}
    (accepted : linearityCheck name kind params body state = .ok (result, state'))
    (isSteady : SteadyBody true params body) {trace : List OwnEvent} {outcome : RunOutcome}
    (runs : RunsFunction params body trace outcome) : NoValueLost trace outcome := by
  intro x
  obtain ⟨holding, afterEq, _, returned⟩ := follows_of_accepted accepted isSteady runs x
  exact ⟨holding, afterEq, fun isReturned => returned isReturned rfl⟩

theorem accepted_runs_lose_nothing_at_closedOnce : ∃ trace,
    RunsFunction handleAndShape closedOnce trace .returned ∧ .fill ⟨"handle"⟩ ∈ trace ∧
      NoValueLost trace .returned := by
  obtain ⟨_, accepted⟩ := closedOnce_accepted
  have isSteady : SteadyBody true handleAndShape closedOnce := by
    intro _
    simp [closedOnce, byShape, closeHandle, steady, steadyWhens, steadyWhen, steadyExpr, steadyEnd,
      steadyArms, count, countList, unconditional, unconditionalList, temporaries]
  exact ⟨_, runs_closedOnce, by simp [shapeTrace, opening],
    accepted_runs_lose_nothing accepted isSteady runs_closedOnce⟩

/-- A function that takes a write reference to a handle and returns. -/
def writeRefParam : List ValueParameter :=
  [⟨⟨"ref"⟩, .writeRef handleTy (.regionTy staticRegion)⟩]

/-- A write reference is linear and may be dropped by returning. -/
theorem write_reference_dropped :
    (∃ result, linearityCheck "f" "function" writeRefParam (.returnStmt .nilConstant)
      ⟨.empty true, []⟩ = .ok result) ∧
    ∃ trace holding, RunsFunction writeRefParam (.returnStmt .nilConstant) trace .returned ∧
      Holding.after true ⟨"ref"⟩ .untracked trace = some holding ∧ holding.isHeld = true :=
  ⟨Comp.exists_eq_ok_of_isOk (by decide +kernel), _, _,
    .run (.returnStmt (.cons (.operands rfl rfl .nil) .nil)), rfl, rfl⟩

end AustralVM
