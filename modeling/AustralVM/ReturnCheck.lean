import AustralVM.SourceAst

/-!
# The return check

`ReturnCheck.ml` accepts a module when each of its functions and methods ends
in a return statement, by a syntactic rule.  Here the rule stands beside the
ways a body can be executed, so that what it misses can be named exactly.
-/

namespace AustralVM

open List PathElem

/-! ## The check -/

def isAbort (name : QIdent) : Bool :=
  name.source.string = "Austral.Pervasive" && name.original.string = "abort"

mutual
def endsInReturn : AStmt → Bool
  | .skip => false
  | .letStmt _ _ body => endsInReturn body
  | .destructure _ _ body => endsInReturn body
  | .assign _ _ => false
  | .ifStmt _ consequent alternative => endsInReturn consequent && endsInReturn alternative
  | .whenStmt _ body => endsInReturn body
  | .caseStmt _ whens => whensEndInReturn whens
  | .whileStmt _ body => endsInReturn body
  | .forStmt _ _ _ body => endsInReturn body
  | .borrow _ _ _ body _ => endsInReturn body
  | .block _ second => endsInReturn second
  | .discarding (.functionCall name _) => isAbort name
  | .discarding _ => false
  | .returnStmt _ => true
  | .initialAssign _ _ => false
def whensEndInReturn : List (AbstractWhen AStmt) → Bool
  | [] => true
  | arm :: whens => endsInReturn arm.body && whensEndInReturn whens
end

def missingReturn (name : Identifier) (declaration : String) : Comp Unit :=
  australRaise .declarationError
    [.text "The ", .text declaration, .text " ", .code name.string,
      .text " does not end in a return statement."]

def checkMethodEndsInReturn (method : CombinedMethodDef) : Comp Unit :=
  if endsInReturn method.body then .ok () else missingReturn method.name "method"

/-- A function that carries a pragma is taken to be foreign and is not looked at. -/
def checkDeclEndsInReturn : CombinedDefinition → Comp Unit
  | .constant _ | .record _ | .union _ | .typeclass _ => .ok ()
  | .function name body [] => if endsInReturn body then .ok () else missingReturn name "function"
  | .function _ _ (_ :: _) => .ok ()
  | .instanceDef _ methods => methods.forM checkMethodEndsInReturn

def checkEndsInReturn (module : CombinedModule) : Comp Unit :=
  module.decls.forM checkDeclEndsInReturn

/-! ## Executions -/

inductive EvalOutcome
  | value
  | aborted
  deriving DecidableEq, Repr

/-- How evaluating an expression can end.  A call of `abort` never gives a
value; any other call may, and may also abort inside the callee.  The second
operand of a conjunction or disjunction and the arms of an if expression may or
may not be evaluated. -/
@[mk_iff]
inductive Evaluates : AExpr → EvalOutcome → Prop
  | nilConstant : Evaluates .nilConstant .value
  | boolConstant {value} : Evaluates (.boolConstant value) .value
  | intConstant {value} : Evaluates (.intConstant value) .value
  | floatConstant {value} : Evaluates (.floatConstant value) .value
  | stringConstant {value} : Evaluates (.stringConstant value) .value
  | variableExpr {name} : Evaluates (.variableExpr name) .value
  | sizeOf : Evaluates .sizeOf .value
  | borrowExpr {mode name} : Evaluates (.borrowExpr mode name) .value
  | reborrow {name} : Evaluates (.reborrow name) .value
  | call {name args} : isAbort name = false → (∀ arg ∈ args.exprs, Evaluates arg .value) →
      Evaluates (.functionCall name args) .value
  | callAborts {name args} : (∀ arg ∈ args.exprs, Evaluates arg .value) →
      Evaluates (.functionCall name args) .aborted
  | argumentAborts {name args arg} : arg ∈ args.exprs → Evaluates arg .aborted →
      Evaluates (.functionCall name args) .aborted
  | arithmetic {operator lhs rhs} : Evaluates lhs .value → Evaluates rhs .value →
      Evaluates (.arithmeticExpression operator lhs rhs) .value
  | arithmeticAborts {operator lhs rhs operand} : operand ∈ [lhs, rhs] →
      Evaluates operand .aborted → Evaluates (.arithmeticExpression operator lhs rhs) .aborted
  | comparison {operator lhs rhs} : Evaluates lhs .value → Evaluates rhs .value →
      Evaluates (.comparison operator lhs rhs) .value
  | comparisonAborts {operator lhs rhs operand} : operand ∈ [lhs, rhs] →
      Evaluates operand .aborted → Evaluates (.comparison operator lhs rhs) .aborted
  | conjunctionShort {lhs rhs outcome} : Evaluates lhs outcome →
      Evaluates (.conjunction lhs rhs) outcome
  | conjunctionFull {lhs rhs outcome} : Evaluates lhs .value → Evaluates rhs outcome →
      Evaluates (.conjunction lhs rhs) outcome
  | disjunctionShort {lhs rhs outcome} : Evaluates lhs outcome →
      Evaluates (.disjunction lhs rhs) outcome
  | disjunctionFull {lhs rhs outcome} : Evaluates lhs .value → Evaluates rhs outcome →
      Evaluates (.disjunction lhs rhs) outcome
  | negation {expr outcome} : Evaluates expr outcome → Evaluates (.negation expr) outcome
  | ifConditionAborts {condition consequent alternative} : Evaluates condition .aborted →
      Evaluates (.ifExpression condition consequent alternative) .aborted
  | ifConsequent {condition consequent alternative outcome} : Evaluates condition .value →
      Evaluates consequent outcome →
      Evaluates (.ifExpression condition consequent alternative) outcome
  | ifAlternative {condition consequent alternative outcome} : Evaluates condition .value →
      Evaluates alternative outcome →
      Evaluates (.ifExpression condition consequent alternative) outcome
  | path {head elems} : (∀ index ∈ elems.flatMap exprs, Evaluates index .value) →
      Evaluates (.path head elems) .value
  | pathAborts {head elems index} : index ∈ elems.flatMap exprs →
      Evaluates index .aborted → Evaluates (.path head elems) .aborted
  | refPath {head elems} : (∀ index ∈ elems.flatMap exprs, Evaluates index .value) →
      Evaluates (.refPath head elems) .value
  | refPathAborts {head elems index} : index ∈ elems.flatMap exprs →
      Evaluates index .aborted → Evaluates (.refPath head elems) .aborted
  | embed {template args} : (∀ arg ∈ args, Evaluates arg .value) →
      Evaluates (.embed template args) .value
  | embedAborts {template args arg} : arg ∈ args → Evaluates arg .aborted →
      Evaluates (.embed template args) .aborted
  | deref {expr outcome} : Evaluates expr outcome → Evaluates (.deref expr) outcome
  | typecast {expr outcome} : Evaluates expr outcome → Evaluates (.typecast expr) outcome

inductive Outcome
  | fellThrough
  | returned
  | aborted
  deriving DecidableEq, Repr

/-- How executing a statement can end: any branch may be taken, and any loop may
run any number of times. -/
@[mk_iff]
inductive Executes : AStmt → Outcome → Prop
  | skip : Executes .skip .fellThrough
  | letStmt {mutability name body outcome} : Executes body outcome →
      Executes (.letStmt mutability name body) outcome
  | destructure {mutability value body outcome} : Evaluates value .value →
      Executes body outcome → Executes (.destructure mutability value body) outcome
  | destructureAborts {mutability value body} : Evaluates value .aborted →
      Executes (.destructure mutability value body) .aborted
  | assign {lvalue value} : Evaluates lvalue .value → Evaluates value .value →
      Executes (.assign lvalue value) .fellThrough
  | assignAborts {lvalue value expr} : expr ∈ [lvalue, value] → Evaluates expr .aborted →
      Executes (.assign lvalue value) .aborted
  | initialAssign {name value} : Evaluates value .value →
      Executes (.initialAssign name value) .fellThrough
  | initialAssignAborts {name value} : Evaluates value .aborted →
      Executes (.initialAssign name value) .aborted
  | ifTrue {condition consequent alternative outcome} : Evaluates condition .value →
      Executes consequent outcome → Executes (.ifStmt condition consequent alternative) outcome
  | ifFalse {condition consequent alternative outcome} : Evaluates condition .value →
      Executes alternative outcome → Executes (.ifStmt condition consequent alternative) outcome
  | ifAborts {condition consequent alternative} : Evaluates condition .aborted →
      Executes (.ifStmt condition consequent alternative) .aborted
  | whenTrue {condition body outcome} : Evaluates condition .value → Executes body outcome →
      Executes (.whenStmt condition body) outcome
  | whenFalse {condition body} : Evaluates condition .value →
      Executes (.whenStmt condition body) .fellThrough
  | whenAborts {condition body} : Evaluates condition .aborted →
      Executes (.whenStmt condition body) .aborted
  | caseArm {scrutinee whens arm outcome} : Evaluates scrutinee .value → arm ∈ whens →
      Executes arm.body outcome → Executes (.caseStmt scrutinee whens) outcome
  | caseAborts {scrutinee whens} : Evaluates scrutinee .aborted →
      Executes (.caseStmt scrutinee whens) .aborted
  | whileExits {condition body} : Evaluates condition .value →
      Executes (.whileStmt condition body) .fellThrough
  | whileAborts {condition body} : Evaluates condition .aborted →
      Executes (.whileStmt condition body) .aborted
  | whileLeaves {condition body outcome} : Evaluates condition .value →
      Executes body outcome → outcome ≠ .fellThrough →
      Executes (.whileStmt condition body) outcome
  | whileIterates {condition body outcome} : Evaluates condition .value →
      Executes body .fellThrough → Executes (.whileStmt condition body) outcome →
      Executes (.whileStmt condition body) outcome
  | forExits {name initial final body} : Evaluates initial .value → Evaluates final .value →
      Executes (.forStmt name initial final body) .fellThrough
  | forAborts {name initial final body bound} : bound ∈ [initial, final] →
      Evaluates bound .aborted → Executes (.forStmt name initial final body) .aborted
  | forLeaves {name initial final body outcome} : Evaluates initial .value →
      Evaluates final .value → Executes body outcome → outcome ≠ .fellThrough →
      Executes (.forStmt name initial final body) outcome
  | forIterates {name initial final body outcome} : Evaluates initial .value →
      Evaluates final .value → Executes body .fellThrough →
      Executes (.forStmt name initial final body) outcome →
      Executes (.forStmt name initial final body) outcome
  | borrow {original rename region body mode outcome} : Executes body outcome →
      Executes (.borrow original rename region body mode) outcome
  | blockFirst {first second outcome} : Executes first outcome → outcome ≠ .fellThrough →
      Executes (.block first second) outcome
  | blockSecond {first second outcome} : Executes first .fellThrough →
      Executes second outcome → Executes (.block first second) outcome
  | discarding {value} : Evaluates value .value → Executes (.discarding value) .fellThrough
  | discardingAborts {value} : Evaluates value .aborted → Executes (.discarding value) .aborted
  | returnStmt {value} : Evaluates value .value → Executes (.returnStmt value) .returned
  | returnAborts {value} : Evaluates value .aborted → Executes (.returnStmt value) .aborted

/-! ## Which expressions give a value, and which bodies can be left only by
returning or aborting -/

mutual
/-- The expression always aborts: a call of `abort` is evaluated on the way to
its value, whatever the short circuits and if expressions do. -/
def alwaysAborts : AExpr → Bool
  | .functionCall name args => isAbort name || someArgAborts args
  | .arithmeticExpression _ lhs rhs => alwaysAborts lhs || alwaysAborts rhs
  | .comparison _ lhs rhs => alwaysAborts lhs || alwaysAborts rhs
  | .conjunction lhs _ => alwaysAborts lhs
  | .disjunction lhs _ => alwaysAborts lhs
  | .negation expr => alwaysAborts expr
  | .ifExpression condition consequent alternative =>
    alwaysAborts condition || (alwaysAborts consequent && alwaysAborts alternative)
  | .path _ elems => someIndexAborts elems
  | .refPath _ elems => someIndexAborts elems
  | .embed _ args => someAborts args
  | .deref expr => alwaysAborts expr
  | .typecast expr => alwaysAborts expr
  | _ => false
def someArgAborts : AbstractArglist AExpr → Bool
  | .positional args => someAborts args
  | .named args => someNamedAborts args
def someAborts : List AExpr → Bool
  | [] => false
  | expr :: exprs => alwaysAborts expr || someAborts exprs
def someNamedAborts : List (Identifier × AExpr) → Bool
  | [] => false
  | (_, expr) :: exprs => alwaysAborts expr || someNamedAborts exprs
def someIndexAborts : List (PathElem AExpr) → Bool
  | [] => false
  | .arrayIndex index :: elems => alwaysAborts index || someIndexAborts elems
  | .slotAccessor _ :: elems => someIndexAborts elems
  | .pointerSlotAccessor _ :: elems => someIndexAborts elems
end

mutual
theorem evaluates_value_iff (expr : AExpr) : Evaluates expr .value ↔ alwaysAborts expr = false := by
  rw [evaluates_iff]
  match expr with
  | .functionCall name args => simp [alwaysAborts, args_value_iff args]
  | .arithmeticExpression _ lhs rhs | .comparison _ lhs rhs =>
    simp [alwaysAborts, evaluates_value_iff lhs, evaluates_value_iff rhs]
  | .conjunction lhs rhs | .disjunction lhs rhs =>
    simp [alwaysAborts, ← evaluates_value_iff lhs, or_iff_left_of_imp And.left]
  | .negation expr | .deref expr | .typecast expr => simp [alwaysAborts, evaluates_value_iff expr]
  | .ifExpression condition consequent alternative =>
    simp [alwaysAborts, evaluates_value_iff condition, evaluates_value_iff consequent,
      evaluates_value_iff alternative, Bool.and_eq_false_iff, and_or_left,
      -Bool.and_eq_false_imp]
  | .path _ elems | .refPath _ elems => simp [alwaysAborts, indices_value_iff elems, -mem_flatMap]
  | .embed _ args => simp [alwaysAborts, exprs_value_iff args]
  | .nilConstant | .boolConstant _ | .intConstant _ | .floatConstant _ | .stringConstant _
  | .variableExpr _ | .sizeOf | .borrowExpr _ _ | .reborrow _ => simp [alwaysAborts]
theorem args_value_iff (args : AbstractArglist AExpr) :
    (∀ arg ∈ args.exprs, Evaluates arg .value) ↔ someArgAborts args = false := by
  match args with
  | .positional args => exact exprs_value_iff args
  | .named args => exact named_value_iff args
theorem exprs_value_iff (exprs : List AExpr) :
    (∀ expr ∈ exprs, Evaluates expr .value) ↔ someAborts exprs = false := by
  match exprs with
  | [] => simp [someAborts]
  | expr :: exprs => simp [someAborts, evaluates_value_iff expr, exprs_value_iff exprs]
theorem named_value_iff (exprs : List (Identifier × AExpr)) :
    (∀ expr ∈ exprs.map Prod.snd, Evaluates expr .value) ↔ someNamedAborts exprs = false := by
  match exprs with
  | [] => simp [someNamedAborts]
  | (_, expr) :: exprs =>
    rw [map_cons, forall_mem_cons, evaluates_value_iff expr, named_value_iff exprs]
    simp [someNamedAborts]
theorem indices_value_iff (elems : List (PathElem AExpr)) :
    (∀ index ∈ elems.flatMap exprs, Evaluates index .value) ↔ someIndexAborts elems = false := by
  match elems with
  | [] => simp [someIndexAborts]
  | .arrayIndex index :: elems =>
    rw [flatMap_cons, forall_mem_append, indices_value_iff elems]
    simp [someIndexAborts, exprs, evaluates_value_iff index]
  | .slotAccessor _ :: elems | .pointerSlotAccessor _ :: elems => exact indices_value_iff elems
end

mutual
/-- Every way of executing the statement returns or aborts.  An if without else
and a loop may be passed by, so they only count when their condition or bounds
always abort; in a block either part is enough. -/
def leavesOnEveryPath : AStmt → Bool
  | .skip => false
  | .letStmt _ _ body => leavesOnEveryPath body
  | .destructure _ value body => alwaysAborts value || leavesOnEveryPath body
  | .assign lvalue value => alwaysAborts lvalue || alwaysAborts value
  | .initialAssign _ value => alwaysAborts value
  | .ifStmt condition consequent alternative =>
    alwaysAborts condition || (leavesOnEveryPath consequent && leavesOnEveryPath alternative)
  | .whenStmt condition _ => alwaysAborts condition
  | .caseStmt scrutinee whens => alwaysAborts scrutinee || whensLeave whens
  | .whileStmt condition _ => alwaysAborts condition
  | .forStmt _ initial final _ => alwaysAborts initial || alwaysAborts final
  | .borrow _ _ _ body _ => leavesOnEveryPath body
  | .block first second => leavesOnEveryPath first || leavesOnEveryPath second
  | .discarding value => alwaysAborts value
  | .returnStmt _ => true
def whensLeave : List (AbstractWhen AStmt) → Bool
  | [] => true
  | arm :: whens => leavesOnEveryPath arm.body && whensLeave whens
end

mutual
theorem executes_fellThrough_iff (stmt : AStmt) :
    Executes stmt .fellThrough ↔ leavesOnEveryPath stmt = false := by
  rw [executes_iff]
  match stmt with
  | .caseStmt scrutinee whens =>
    simp [leavesOnEveryPath, evaluates_value_iff, ← whens_fellThrough_iff whens]
  | .ifStmt condition consequent alternative =>
    simp [leavesOnEveryPath, evaluates_value_iff, executes_fellThrough_iff consequent,
      executes_fellThrough_iff alternative, Bool.and_eq_false_iff, and_or_left,
      -Bool.and_eq_false_imp]
  | .whenStmt _ _ | .whileStmt _ _ | .forStmt _ _ _ _ =>
    simp +contextual [leavesOnEveryPath, evaluates_value_iff]
  | .block first second =>
    simp [leavesOnEveryPath, executes_fellThrough_iff first, executes_fellThrough_iff second]
  | .letStmt _ _ body | .destructure _ _ body | .borrow _ _ _ body _ =>
    simp [leavesOnEveryPath, evaluates_value_iff, executes_fellThrough_iff body]
  | .skip | .assign _ _ | .initialAssign _ _ | .discarding _ | .returnStmt _ =>
    simp [leavesOnEveryPath, evaluates_value_iff]
theorem whens_fellThrough_iff (whens : List (AbstractWhen AStmt)) :
    (∃ arm ∈ whens, Executes arm.body .fellThrough) ↔ whensLeave whens = false := by
  match whens with
  | [] => simp [whensLeave]
  | arm :: whens =>
    simp [whensLeave, Bool.and_eq_false_iff, executes_fellThrough_iff arm.body,
      whens_fellThrough_iff whens, -Bool.and_eq_false_imp]
end

theorem executes_leaves_iff (body : AStmt) :
    (∀ outcome, Executes body outcome → outcome = .returned ∨ outcome = .aborted) ↔
      leavesOnEveryPath body = true := by
  constructor
  · intro leaves
    by_contra mayFall
    have falls := (executes_fellThrough_iff body).mpr (by simpa using mayFall)
    simpa using leaves .fellThrough falls
  · intro leaves outcome executes
    cases outcome with
    | returned => exact .inl rfl
    | aborted => exact .inr rfl
    | fellThrough => simp [(executes_fellThrough_iff body).mp executes] at leaves

/-! ## What the check misses -/

mutual
/-- No if without else and no loop stands where the rule looks for the return,
unless it cannot be passed by or is not reached. -/
def noLoopOrWhenLast : AStmt → Bool
  | .letStmt _ _ body => noLoopOrWhenLast body
  | .destructure _ value body => alwaysAborts value || noLoopOrWhenLast body
  | .ifStmt condition consequent alternative =>
    alwaysAborts condition || (noLoopOrWhenLast consequent && noLoopOrWhenLast alternative)
  | .whenStmt condition _ => alwaysAborts condition
  | .caseStmt scrutinee whens => alwaysAborts scrutinee || noLoopOrWhenLastInWhens whens
  | .whileStmt condition _ => alwaysAborts condition
  | .forStmt _ initial final _ => alwaysAborts initial || alwaysAborts final
  | .borrow _ _ _ body _ => noLoopOrWhenLast body
  | .block first second => leavesOnEveryPath first || noLoopOrWhenLast second
  | _ => true
def noLoopOrWhenLastInWhens : List (AbstractWhen AStmt) → Bool
  | [] => true
  | arm :: whens => noLoopOrWhenLast arm.body && noLoopOrWhenLastInWhens whens
end

mutual
/-- For a body the rule accepts, a loop or an if without else in last position
is the only way to fall through. -/
theorem leavesOnEveryPath_of_endsInReturn (ends : endsInReturn stmt = true) :
    leavesOnEveryPath stmt = noLoopOrWhenLast stmt := by
  match stmt with
  | .ifStmt condition consequent alternative =>
    simp only [endsInReturn, Bool.and_eq_true] at ends
    simp [leavesOnEveryPath, noLoopOrWhenLast, leavesOnEveryPath_of_endsInReturn ends.1,
      leavesOnEveryPath_of_endsInReturn ends.2]
  | .caseStmt scrutinee whens =>
    rw [endsInReturn] at ends
    simp [leavesOnEveryPath, noLoopOrWhenLast, whensLeave_of_whensEndInReturn ends]
  | .letStmt _ _ body | .borrow _ _ _ body _ =>
    rw [endsInReturn] at ends
    simpa [leavesOnEveryPath, noLoopOrWhenLast] using leavesOnEveryPath_of_endsInReturn ends
  | .destructure _ _ body | .block _ body =>
    rw [endsInReturn] at ends
    simp [leavesOnEveryPath, noLoopOrWhenLast, leavesOnEveryPath_of_endsInReturn ends]
  | .discarding value =>
    cases value with
    | functionCall name =>
      simp [leavesOnEveryPath, noLoopOrWhenLast, alwaysAborts,
        show isAbort name = true by simpa [endsInReturn] using ends]
    | _ => simp [endsInReturn] at ends
  | .skip | .assign _ _ | .initialAssign _ _ => simp [endsInReturn] at ends
  | .whenStmt _ _ | .whileStmt _ _ | .forStmt _ _ _ _ | .returnStmt _ =>
    simp [leavesOnEveryPath, noLoopOrWhenLast]
theorem whensLeave_of_whensEndInReturn (ends : whensEndInReturn whens = true) :
    whensLeave whens = noLoopOrWhenLastInWhens whens := by
  match whens with
  | [] => rfl
  | arm :: whens =>
    simp only [whensEndInReturn, Bool.and_eq_true] at ends
    simp [whensLeave, noLoopOrWhenLastInWhens, leavesOnEveryPath_of_endsInReturn ends.1,
      whensLeave_of_whensEndInReturn ends.2]
end

/-- The bodies the check looks at: functions without pragmas, and methods. -/
def CombinedDefinition.checkedBodies : CombinedDefinition → List AStmt
  | .function _ body [] => [body]
  | .instanceDef _ methods => methods.map CombinedMethodDef.body
  | _ => []

/-- The Austral bodies the check skips: functions that carry a pragma but are
not imported from C. -/
def CombinedDefinition.pragmaBodies : CombinedDefinition → List AStmt
  | .function _ body (pragma :: pragmas) =>
    if (pragma :: pragmas).any (fun pragma => pragma matches .foreignImport _) then [] else [body]
  | _ => []

def CombinedModule.checkedBodies (module : CombinedModule) : List AStmt :=
  module.decls.flatMap CombinedDefinition.checkedBodies

def CombinedModule.pragmaBodies (module : CombinedModule) : List AStmt :=
  module.decls.flatMap CombinedDefinition.pragmaBodies

/-- The bodies of the functions and methods written in Austral. -/
def CombinedModule.australBodies (module : CombinedModule) : List AStmt :=
  module.checkedBodies ++ module.pragmaBodies

theorem endsInReturn_of_accepted (accepted : checkEndsInReturn module = .ok ())
    (member : body ∈ module.checkedBodies) : endsInReturn body = true := by
  obtain ⟨decl, declMember, bodyMember⟩ := mem_flatMap.mp member
  have declAccepted := Comp.forM_eq_ok.mp accepted decl declMember
  match decl with
  | .function name body' [] =>
    obtain rfl : body = body' := by simpa [CombinedDefinition.checkedBodies] using bodyMember
    by_contra missing
    simp [checkDeclEndsInReturn, missing, missingReturn] at declAccepted
  | .instanceDef name methods =>
    obtain ⟨method, methodMember, rfl⟩ := mem_map.mp bodyMember
    have methodAccepted := Comp.forM_eq_ok.mp declAccepted method methodMember
    by_contra missing
    simp [checkMethodEndsInReturn, missing, missingReturn] at methodAccepted
  | .function _ _ (_ :: _) | .constant _ | .record _ | .union _ | .typeclass _ =>
    simp [CombinedDefinition.checkedBodies] at bodyMember

/-- In a module the check accepts, every execution of every Austral body ends in
a return or an abort exactly when no checked body has a loop or an if without
else in last position and every body with a pragma leaves on every path. -/
theorem accepted_bodies_leave_iff (module : CombinedModule)
    (accepted : checkEndsInReturn module = .ok ()) :
    (∀ body ∈ module.australBodies, ∀ outcome, Executes body outcome →
      outcome = .returned ∨ outcome = .aborted) ↔
      (∀ body ∈ module.checkedBodies, noLoopOrWhenLast body = true) ∧
      (∀ body ∈ module.pragmaBodies, leavesOnEveryPath body = true) := by
  have checkedIff : ∀ body ∈ module.checkedBodies,
      leavesOnEveryPath body = noLoopOrWhenLast body :=
    fun body member => leavesOnEveryPath_of_endsInReturn (endsInReturn_of_accepted accepted member)
  simp only [CombinedModule.australBodies, mem_append, or_imp, forall_and, executes_leaves_iff]
  refine and_congr_left fun _ => forall₂_congr fun body member => ?_
  rw [checkedIff body member]

/-- A module with one function `f`. -/
def oneFunctionModule (body : AStmt) (pragmas : List Pragma) : CombinedModule :=
  ⟨⟨"Example"⟩, [.function ⟨"f"⟩ body pragmas]⟩

/-- A branch that returns, and a case whose arms return and abort. -/
def branchingModule : CombinedModule :=
  oneFunctionModule (.ifStmt (.boolConstant true) (.returnStmt .nilConstant)
    (.caseStmt .nilConstant [⟨⟨"Some"⟩, .returnStmt .nilConstant⟩, ⟨⟨"None"⟩, .discarding
      (.functionCall ⟨⟨"Austral.Pervasive"⟩, ⟨"abort"⟩, ⟨"abort"⟩⟩ (.positional []))⟩])) []

theorem accepted_bodies_leave_at_branches :
    checkEndsInReturn branchingModule = .ok () ∧ ∀ body ∈ branchingModule.australBodies,
      ∀ outcome, Executes body outcome → outcome = .returned ∨ outcome = .aborted :=
  ⟨rfl, (accepted_bodies_leave_iff branchingModule rfl).mpr ⟨by decide, by decide⟩⟩

/-- The body `if c then return nil; end if;` and, under a pragma, the empty body
are accepted, and both can be fallen through. -/
theorem accepted_body_falls_through : (checkEndsInReturn (oneFunctionModule
        (.whenStmt (.boolConstant false) (.returnStmt .nilConstant)) []) = .ok () ∧
      Executes (.whenStmt (.boolConstant false) (.returnStmt .nilConstant)) .fellThrough ∧
      .whenStmt (.boolConstant false) (.returnStmt .nilConstant) ∈ (oneFunctionModule
        (.whenStmt (.boolConstant false) (.returnStmt .nilConstant)) []).australBodies) ∧
    (checkEndsInReturn (oneFunctionModule .skip [.foreignExport "f"]) = .ok () ∧
      Executes .skip .fellThrough ∧
      .skip ∈ (oneFunctionModule .skip [.foreignExport "f"]).australBodies) := by
  refine ⟨⟨rfl, .whenFalse .boolConstant, ?_⟩, rfl, .skip, ?_⟩
  · exact mem_append_left _ (mem_singleton_self _)
  · exact mem_append_right _ (mem_singleton_self _)

end AustralVM
