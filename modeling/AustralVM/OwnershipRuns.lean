import AustralVM.VariableView

/-!
# Executions and what they do with linear values

The runs of a typed body, as the sequence of what happens to its variables: a
variable comes into scope, gets a value, is used up, is borrowed, goes out of
scope.  Any branch may be taken, any loop may run any number of times, and a run
may stop anywhere.  A run is judged by following what each linear variable
holds.
-/

namespace AustralVM

open List

/-! ## Reading expressions -/

namespace TExpr

def readVar : TExpr → Option Identifier
  | .paramVar name _ | .localVar name _ | .temporary name _ => some name
  | _ => none

/-- The immediate subexpressions, in the order they are evaluated.  The pointer
of a call through a pointer is free and does not count. -/
def operands : TExpr → List TExpr
  | .funcall _ _ args _ _ | .methodCall _ _ _ args _ _ | .varMethodCall _ _ _ _ args _ _ _
  | .fptrCall _ args _ | .embed _ _ args => args
  | .recordConstructor _ args | .unionConstructor _ _ args => args.map Prod.snd
  | .cast expr _ | .negation expr | .deref expr | .slotAccessor expr _ _
  | .pointerSlotAccessor expr _ _ => [expr]
  | .comparison _ lhs rhs | .conjunction lhs rhs | .disjunction lhs rhs
  | .arrayIndex lhs rhs _ | .spanIndex lhs rhs _ => [lhs, rhs]
  | .ifExpression condition consequent alternative => [condition, consequent, alternative]
  | _ => []

/-- Whether an expression may leave operands unevaluated. -/
def isConditional : TExpr → Bool
  | .conjunction _ _ | .disjunction _ _ | .ifExpression _ _ _ => true
  | _ => false

theorem sizeOf_lt_of_mem_operands (member : operand ∈ operands expr) :
    SizeOf.sizeOf operand < SizeOf.sizeOf expr := by
  cases expr with simp [operands] at member ⊢
  | funcall | methodCall | varMethodCall | fptrCall | embed =>
    have := sizeOf_lt_of_mem member
    omega
  | recordConstructor | unionConstructor =>
    obtain ⟨_, member⟩ := member
    have := sizeOf_lt_of_mem member
    rw [Prod.mk.sizeOf_spec] at this
    omega
  | _ => grind

theorem operandInduction {motive : TExpr → Prop}
    (step : ∀ expr, (∀ operand ∈ expr.operands, motive operand) → motive expr) (expr : TExpr) :
    motive expr :=
  step expr fun operand member =>
    have := sizeOf_lt_of_mem_operands member
    operandInduction step operand

end TExpr

/-- Evaluating expressions one after the other, up to the first that does not
finish. -/
inductive ReadsAll (reads : TExpr → List Identifier → Bool → Prop) :
    List TExpr → List Identifier → Bool → Prop
  | nil : ReadsAll reads [] [] true
  | cons {expr exprs uses uses' finishes} : reads expr uses true →
      ReadsAll reads exprs uses' finishes →
      ReadsAll reads (expr :: exprs) (uses ++ uses') finishes
  | stops {expr exprs uses} : reads expr uses false → ReadsAll reads (expr :: exprs) uses false

/-- Which variables evaluating an expression reads, in order, and whether the
evaluation finishes. -/
inductive Reads : TExpr → List Identifier → Bool → Prop
  | variableRead {expr name} : expr.readVar = some name → Reads expr [name] true
  | operands {expr uses finishes} : expr.readVar = none → expr.isConditional = false →
      ReadsAll Reads expr.operands uses finishes → Reads expr uses finishes
  | diverges {expr uses} : expr.readVar = none → expr.isConditional = false →
      ReadsAll Reads expr.operands uses true → Reads expr uses false
  | conjunctionShort {lhs rhs uses finishes} : Reads lhs uses finishes →
      Reads (.conjunction lhs rhs) uses finishes
  | conjunctionFull {lhs rhs uses uses' finishes} : Reads lhs uses true →
      Reads rhs uses' finishes → Reads (.conjunction lhs rhs) (uses ++ uses') finishes
  | disjunctionShort {lhs rhs uses finishes} : Reads lhs uses finishes →
      Reads (.disjunction lhs rhs) uses finishes
  | disjunctionFull {lhs rhs uses uses' finishes} : Reads lhs uses true →
      Reads rhs uses' finishes → Reads (.disjunction lhs rhs) (uses ++ uses') finishes
  | conditionStops {condition consequent alternative uses} : Reads condition uses false →
      Reads (.ifExpression condition consequent alternative) uses false
  | consequent {condition consequent alternative uses uses' finishes} :
      Reads condition uses true → Reads consequent uses' finishes →
      Reads (.ifExpression condition consequent alternative) (uses ++ uses') finishes
  | alternative {condition consequent alternative uses uses' finishes} :
      Reads condition uses true → Reads alternative uses' finishes →
      Reads (.ifExpression condition consequent alternative) (uses ++ uses') finishes

mutual
/-- How often a variable is read by every evaluation that finishes: its
appearances outside the operands that may be left unevaluated. -/
def unconditional (name : Identifier) : TExpr → Nat
  | .paramVar name' _ | .localVar name' _ | .temporary name' _ => if name = name' then 1 else 0
  | .funcall _ _ args _ _ | .methodCall _ _ _ args _ _ | .varMethodCall _ _ _ _ args _ _ _
  | .fptrCall _ args _ | .embed _ _ args => unconditionalList name args
  | .recordConstructor _ args | .unionConstructor _ _ args => unconditionalArgs name args
  | .cast expr _ | .negation expr | .deref expr | .slotAccessor expr _ _
  | .pointerSlotAccessor expr _ _ => unconditional name expr
  | .comparison _ lhs rhs | .arrayIndex lhs rhs _ | .spanIndex lhs rhs _ =>
    unconditional name lhs + unconditional name rhs
  | .conjunction lhs _ | .disjunction lhs _ => unconditional name lhs
  | .ifExpression condition _ _ => unconditional name condition
  | .nilConstant | .boolConstant _ | .intConstant _ | .floatConstant _ | .stringConstant _
  | .constVar _ _ | .funVar _ _ _ | .sizeOf _ => 0
def unconditionalList (name : Identifier) : List TExpr → Nat
  | [] => 0
  | expr :: exprs => unconditional name expr + unconditionalList name exprs
def unconditionalArgs (name : Identifier) : List (Identifier × TExpr) → Nat
  | [] => 0
  | (_, expr) :: exprs => unconditional name expr + unconditionalArgs name exprs
end

section Counting

variable (x : Identifier)

theorem countList_eq_sum (exprs : List TExpr) : countList x exprs = (exprs.map (count x)).sum := by
  induction exprs with
  | nil => rfl
  | cons _ _ ih => simp [countList, ih]

theorem countArgs_eq_sum (args : List (Identifier × TExpr)) :
    countArgs x args = ((args.map Prod.snd).map (count x)).sum := by
  induction args with
  | nil => rfl
  | cons _ _ ih => simp [countArgs, ih]

theorem unconditionalList_eq_sum (exprs : List TExpr) :
    unconditionalList x exprs = (exprs.map (unconditional x)).sum := by
  induction exprs with
  | nil => rfl
  | cons _ _ ih => simp [unconditionalList, ih]

theorem unconditionalArgs_eq_sum (args : List (Identifier × TExpr)) :
    unconditionalArgs x args = ((args.map Prod.snd).map (unconditional x)).sum := by
  induction args with
  | nil => rfl
  | cons _ _ ih => simp [unconditionalArgs, ih]

theorem count_of_variable (isVariable : expr.readVar = some name) :
    count x expr = (if x = name then 1 else 0) ∧
      unconditional x expr = if x = name then 1 else 0 := by
  cases expr with
  | paramVar name' | localVar name' | temporary name' =>
    obtain rfl : name' = name := Option.some.inj isVariable
    exact ⟨by rw [count], by rw [unconditional]⟩
  | _ => cases isVariable

theorem count_eq_sum_operands (notVariable : expr.readVar = none) :
    count x expr = (expr.operands.map (count x)).sum := by
  cases expr with
  | paramVar | localVar | temporary => cases notVariable
  | funcall | methodCall | varMethodCall | fptrCall | embed =>
    rw [count, countList_eq_sum]
    rfl
  | recordConstructor | unionConstructor =>
    rw [count, countArgs_eq_sum]
    rfl
  | cast | negation | deref | slotAccessor | pointerSlotAccessor =>
    rw [count]
    exact (Nat.add_zero _).symm
  | _ =>
    rw [count]
    rfl

theorem unconditional_eq_sum_operands (notVariable : expr.readVar = none)
    (notConditional : expr.isConditional = false) :
    unconditional x expr = (expr.operands.map (unconditional x)).sum := by
  cases expr with
  | paramVar | localVar | temporary => cases notVariable
  | conjunction | disjunction | ifExpression => cases notConditional
  | funcall | methodCall | varMethodCall | fptrCall | embed =>
    rw [unconditional, unconditionalList_eq_sum]
    rfl
  | recordConstructor | unionConstructor =>
    rw [unconditional, unconditionalArgs_eq_sum]
    rfl
  | cast | negation | deref | slotAccessor | pointerSlotAccessor =>
    rw [unconditional]
    exact (Nat.add_zero _).symm
  | _ =>
    rw [unconditional]
    rfl

theorem ReadsAll.count_bounds (each : ∀ expr ∈ exprs, ∀ uses finishes, reads expr uses finishes →
      uses.count x ≤ count x expr ∧ (finishes = true → unconditional x expr ≤ uses.count x))
    (readsAll : ReadsAll reads exprs uses finishes) : uses.count x ≤ (exprs.map (count x)).sum ∧
      (finishes = true → (exprs.map (unconditional x)).sum ≤ uses.count x) := by
  induction readsAll with
  | nil => simp
  | cons readsFirst _ ih =>
    obtain ⟨_, firstAtLeast⟩ := each _ mem_cons_self _ _ readsFirst
    obtain ⟨_, restAtLeast⟩ := ih (forall_mem_cons.mp each).2
    simp only [count_append, map_cons, sum_cons]
    refine ⟨by omega, fun finishes => ?_⟩
    have := firstAtLeast rfl
    have := restAtLeast finishes
    omega
  | stops readsFirst =>
    obtain ⟨_, _⟩ := each _ mem_cons_self _ _ readsFirst
    simp only [map_cons, sum_cons]
    exact ⟨by omega, nofun⟩

/-- An evaluation reads a variable at most as often as it appears, and if it
finishes at least as often as it appears unconditionally. -/
theorem Reads.count_bounds {expr : TExpr} {uses : List Identifier} {finishes : Bool}
    (reads : Reads expr uses finishes) :
    uses.count x ≤ count x expr ∧ (finishes = true → unconditional x expr ≤ uses.count x) := by
  induction expr using TExpr.operandInduction generalizing uses finishes with
  | step _ ih =>
    cases reads with
    | @variableRead _ name isVariable =>
      obtain ⟨counted, unconditionalCounted⟩ := count_of_variable x isVariable
      rw [counted, unconditionalCounted]
      by_cases sameName : x = name
      · simp [sameName]
      · simp [sameName, Ne.symm sameName]
    | operands notVariable notConditional readsAll =>
      rw [count_eq_sum_operands x notVariable,
        unconditional_eq_sum_operands x notVariable notConditional]
      exact readsAll.count_bounds x fun operand member _ _ => ih operand member
    | diverges notVariable _ readsAll =>
      rw [count_eq_sum_operands x notVariable]
      exact ⟨(readsAll.count_bounds x fun operand member _ _ => ih operand member).1, nofun⟩
    | conjunctionShort readsLhs | disjunctionShort readsLhs =>
      obtain ⟨_, lhsAtLeast⟩ := ih _ (by simp [TExpr.operands]) readsLhs
      simp only [count, unconditional]
      exact ⟨by omega, lhsAtLeast⟩
    | conjunctionFull readsLhs readsRhs | disjunctionFull readsLhs readsRhs =>
      obtain ⟨_, lhsAtLeast⟩ := ih _ (by simp [TExpr.operands]) readsLhs
      obtain ⟨_, _⟩ := ih _ (by simp [TExpr.operands]) readsRhs
      have := lhsAtLeast rfl
      simp only [count, unconditional, count_append]
      exact ⟨by omega, fun _ => by omega⟩
    | conditionStops readsCondition =>
      obtain ⟨_, _⟩ := ih _ (by simp [TExpr.operands]) readsCondition
      simp only [count]
      exact ⟨by omega, nofun⟩
    | consequent readsCondition readsArm | alternative readsCondition readsArm =>
      obtain ⟨_, conditionAtLeast⟩ := ih _ (by simp [TExpr.operands]) readsCondition
      obtain ⟨_, _⟩ := ih _ (by simp [TExpr.operands]) readsArm
      have := conditionAtLeast rfl
      simp only [count, unconditional, count_append]
      exact ⟨by omega, fun _ => by omega⟩

end Counting

/-! ## Running statements -/

inductive OwnEvent
  | enter (name : Identifier) (ty : Ty)
  | fill (name : Identifier)
  | use (name : Identifier)
  | borrow (name : Identifier)
  | leave (name : Identifier)
  deriving Repr

inductive RunOutcome
  | finished
  | returned
  | stopped
  deriving DecidableEq, Repr

/-- The temporaries a statement declares, outside the arms and loop bodies in
it: in the generated code those are blocks of their own. -/
def temporaries : TStmt → List Identifier
  | .letTmp name _ _ => [name]
  | .letStmt _ _ _ body | .destructure _ _ _ body | .borrow _ _ _ _ _ body _ => temporaries body
  | .block first second => temporaries first ++ temporaries second
  | _ => []

namespace OwnEvent

def reading (uses : List Identifier) : List OwnEvent := uses.map .use

def opening (name : Identifier) (ty : Ty) : List OwnEvent := [.enter name ty, .fill name]

def openingAll (bindings : List TypedBinding) : List OwnEvent :=
  bindings.flatMap fun binding => opening binding.rename binding.ty

def leavingAll (names : List Identifier) : List OwnEvent := names.map .leave

end OwnEvent

open OwnEvent

/-- What happens at the end of a scope, if the run gets there. -/
def closing (outcome : RunOutcome) (events : List OwnEvent) : List OwnEvent :=
  if outcome = .finished then events else []

def ending (finishes : Bool) : RunOutcome := if finishes then .finished else .stopped

/-- The expressions a statement evaluates before anything else. -/
def heads : TStmt → List TExpr
  | .destructure _ _ value _ | .assignVar _ value | .initialAssign _ value | .discarding value
  | .returnStmt value | .assignTmp _ value => [value]
  | .assign lvalue value => [lvalue, value]
  | .ifStmt condition _ _ | .whileStmt condition _ => [condition]
  | .caseStmt scrutinee _ _ => [scrutinee]
  | .forStmt _ start final _ => [start, final]
  | _ => []

inductive Runs : TStmt → List OwnEvent → RunOutcome → Prop
  | stops {stmt} : Runs stmt [] .stopped
  | headStops {stmt uses} : ReadsAll Reads (heads stmt) uses false →
      Runs stmt (reading uses) .stopped
  | skip : Runs .skip [] .finished
  | letStmt {mutability name ty body trace outcome} : Runs body trace outcome →
      Runs (.letStmt mutability name ty body)
        (.enter name ty :: trace ++ closing outcome [.leave name]) outcome
  | letTmp {name ty value uses finishes} : Reads value uses finishes →
      Runs (.letTmp name ty value)
        (.enter name ty :: reading uses ++ closing (ending finishes) [.fill name])
        (ending finishes)
  | assignTmp {name value uses} : ReadsAll Reads [value] uses true →
      Runs (.assignTmp name value) (reading uses ++ [.fill name]) .finished
  | destructure {mutability bindings value body uses trace outcome} :
      ReadsAll Reads [value] uses true → Runs body trace outcome →
      Runs (.destructure mutability bindings value body)
        (reading uses ++ (openingAll bindings ++ (trace ++
          closing outcome (leavingAll (bindings.map TypedBinding.rename))))) outcome
  | assign {lvalue value uses} : ReadsAll Reads [lvalue, value] uses true →
      Runs (.assign lvalue value) (reading uses) .finished
  | assignVar {name value uses} : ReadsAll Reads [value] uses true →
      Runs (.assignVar name value) (reading uses ++ [.fill name.localName]) .finished
  | initialAssign {name value uses} : ReadsAll Reads [value] uses true →
      Runs (.initialAssign name value) (reading uses ++ [.fill name.localName]) .finished
  | ifArm {condition consequent alternative arm uses trace outcome} :
      ReadsAll Reads [condition] uses true → arm ∈ [consequent, alternative] →
      Runs arm trace outcome →
      Runs (.ifStmt condition consequent alternative)
        (reading uses ++ (trace ++ closing outcome (leavingAll (temporaries arm)))) outcome
  | caseArm {scrutinee whens kind arm uses trace outcome} :
      ReadsAll Reads [scrutinee] uses true → arm ∈ whens → Runs arm.body trace outcome →
      Runs (.caseStmt scrutinee whens kind)
        (reading uses ++ (openingAll arm.bindings ++ (trace ++
          closing outcome (leavingAll (arm.bindings.map TypedBinding.rename) ++
            leavingAll (temporaries arm.body))))) outcome
  | whileExits {condition body uses} : ReadsAll Reads [condition] uses true →
      Runs (.whileStmt condition body) (reading uses) .finished
  | whileLeaves {condition body uses trace outcome} : ReadsAll Reads [condition] uses true →
      Runs body trace outcome → outcome ≠ .finished →
      Runs (.whileStmt condition body) (reading uses ++ trace) outcome
  | whileIterates {condition body uses trace rest outcome} :
      ReadsAll Reads [condition] uses true → Runs body trace .finished →
      Runs (.whileStmt condition body) rest outcome →
      Runs (.whileStmt condition body)
        (reading uses ++ (trace ++ (leavingAll (temporaries body) ++ rest))) outcome
  | forExits {name start final body uses} {rounds : List (List OwnEvent)} :
      ReadsAll Reads [start, final] uses true →
      (∀ round ∈ rounds, Runs body round .finished) →
      Runs (.forStmt name start final body)
        (reading uses ++ rounds.flatMap fun round => round ++ leavingAll (temporaries body))
        .finished
  | forLeaves {name start final body uses trace outcome} {rounds : List (List OwnEvent)} :
      ReadsAll Reads [start, final] uses true →
      (∀ round ∈ rounds, Runs body round .finished) → Runs body trace outcome →
      outcome ≠ .finished →
      Runs (.forStmt name start final body)
        (reading uses ++ ((rounds.flatMap fun round => round ++ leavingAll (temporaries body)) ++
          trace)) outcome
  | borrow {original rename region origType refType body mode trace outcome} :
      Runs body trace outcome →
      Runs (.borrow original rename region origType refType body mode)
        (.borrow original :: (opening rename refType ++
          (trace ++ closing outcome [.leave rename]))) outcome
  | blockFirst {first second trace outcome} : Runs first trace outcome → outcome ≠ .finished →
      Runs (.block first second) trace outcome
  | blockSecond {first second trace trace' outcome} : Runs first trace .finished →
      Runs second trace' outcome → Runs (.block first second) (trace ++ trace') outcome
  | discarding {value uses} : ReadsAll Reads [value] uses true →
      Runs (.discarding value) (reading uses) .finished
  | returnStmt {value uses} : ReadsAll Reads [value] uses true →
      Runs (.returnStmt value) (reading uses) .returned

/-- The runs of a function: its parameters come into scope with a value, and
then the body runs. -/
inductive RunsFunction (params : List ValueParameter) (body : TStmt) :
    List OwnEvent → RunOutcome → Prop
  | run {trace outcome} : Runs body trace outcome →
      RunsFunction params body
        ((params.flatMap fun param => opening param.name param.ty) ++ trace) outcome

/-! ## What a variable holds -/

/-- What a run knows of a name: no linear variable of that name is in scope, or
there is one, without or with a value. -/
inductive Holding
  | untracked
  | empty (ty : Ty)
  | held (ty : Ty)
  deriving Repr

namespace Holding

def isHeld : Holding → Bool
  | .held _ => true
  | _ => false

def isTracked : Holding → Bool
  | .untracked => false
  | _ => true

def entered (ty : Ty) : Holding := if isLinear ty then .empty ty else .untracked

/-- A value that is lost: held by a variable that is not a write reference. -/
def losing : Holding → Bool
  | .held ty => !StateTbl.isWriteRef ty
  | _ => false

/-- What an event does to what a variable holds; `none` if it is not allowed.
Using or borrowing a variable without a value is never allowed.  Where losses
count, neither is giving a value to a variable that has one, or leaving the
scope of one that has one; write references may be left. -/
def step (losses : Bool) (x : Identifier) (holding : Holding) : OwnEvent → Option Holding
  | .enter name ty =>
    if name = x then
      if losses && holding.isHeld then none else some (entered ty)
    else
      some holding
  | .fill name =>
    if name = x then
      match holding with
      | .untracked => some .untracked
      | .empty ty => some (.held ty)
      | .held ty => if losses then none else some (.held ty)
    else
      some holding
  | .use name =>
    if name = x then
      match holding with
      | .untracked => some .untracked
      | .empty _ => none
      | .held ty => some (.empty ty)
    else
      some holding
  | .borrow name =>
    if name = x then
      match holding with
      | .empty _ => none
      | holding => some holding
    else
      some holding
  | .leave name =>
    if name = x then
      if losses && holding.losing then none else some .untracked
    else
      some holding

def after (losses : Bool) (x : Identifier) (holding : Holding) (trace : List OwnEvent) :
    Option Holding :=
  trace.foldlM (step losses x) holding

end Holding

end AustralVM
