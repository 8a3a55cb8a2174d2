import AustralVM.SteadyBodies

/-!
# The calls that an execution reaches

The goals of calls are made on a walk over a body that carries the bindings in scope.
An execution that comes to a call has passed the statements around it; beside the
variables and the memory it is followed here with the bindings that the walk has there,
so that a call that is reached can be compared with the site the walk has found.
-/

namespace AustralVM.Liquid.Constraints

open Typed Stoppable List

/-! ## Parts of expressions and statements that are run -/

/-- What an expression evaluates first, in this order and whatever the values are. -/
def operands : TExpr → List TExpr
  | .funcall _ _ args _ _ | .methodCall _ _ _ args _ _ | .varMethodCall _ _ _ _ args _ _ _
  | .fptrCall _ args _ | .embed _ _ args => args
  | .cast expr _ | .negation expr | .slotAccessor expr _ _ | .pointerSlotAccessor expr _ _
  | .deref expr => [expr]
  | .comparison _ lhs rhs | .arrayIndex lhs rhs _ | .spanIndex lhs rhs _ => [lhs, rhs]
  | .conjunction lhs _ | .disjunction lhs _ => [lhs]
  | .ifExpression condition _ _ => [condition]
  | .recordConstructor _ args | .unionConstructor _ _ args => args.map Prod.snd
  | _ => []

/-- A point of an execution: the bindings of the walk, the variables and the memory. -/
structure Point where
  env : TempEnv
  frame : Frame
  memory : Memory

def borrowed (frame : Frame) (original : Identifier) (mode : BorrowStmtKind) : Run Value := do
  let source ← frame.cellOf (.named original.string)
  match mode with
  | .read => pure (.reference false ⟨source, []⟩)
  | .write => pure (.reference true ⟨source, []⟩)
  | .reborrow => do
    let (writable, place) ← load ⟨source, []⟩ >>= asReference
    if writable then pure (.reference true place) else stop .stuck

section Reached

variable (host : Host) (call : Typed.Callee → List Value → Run Value) (limit : Nat)

/-- The evaluation of an expression in a frame begins that of a part of it. -/
inductive Computes (frame : Frame) : Memory × TExpr → Memory × TExpr → Prop
  | operand {expr arg : TExpr} {before after : List TExpr} {memory between : Memory}
      {values : List Value} (isOperand : operands expr = before ++ arg :: after)
      (ran : evals host call frame before memory = (.ok values, between)) :
      Computes frame (memory, expr) (between, arg)
  | conjunct {lhs rhs : TExpr} {memory between : Memory}
      (ran : (eval host call frame lhs >>= asBool) memory = (.ok true, between)) :
      Computes frame (memory, .conjunction lhs rhs) (between, rhs)
  | disjunct {lhs rhs : TExpr} {memory between : Memory}
      (ran : (eval host call frame lhs >>= asBool) memory = (.ok false, between)) :
      Computes frame (memory, .disjunction lhs rhs) (between, rhs)
  | consequent {condition consequent alternative : TExpr} {memory between : Memory}
      (ran : (eval host call frame condition >>= asBool) memory = (.ok true, between)) :
      Computes frame (memory, .ifExpression condition consequent alternative) (between, consequent)
  | alternative {condition consequent alternative : TExpr} {memory between : Memory}
      (ran : (eval host call frame condition >>= asBool) memory = (.ok false, between)) :
      Computes frame (memory, .ifExpression condition consequent alternative)
        (between, alternative)

/-- The expression that a statement evaluates first. -/
def firstExpr : TStmt → Option TExpr
  | .letTmp _ _ value | .assignTmp _ value | .assignVar _ value | .initialAssign _ value
  | .returnStmt value | .discarding value | .destructure _ _ value _ | .assign value _ => some value
  | .ifStmt condition _ _ => some condition
  | .caseStmt value _ _ => some value
  | _ => none

/-- A statement begins the evaluation of an expression of its own.  The walk does not
look into the start of a `for` loop: there is no goal for a call there. -/
inductive Begins : Point × TStmt → Memory × TExpr → Prop
  | first {point : Point} {stmt : TStmt} {expr : TExpr} (isFirst : firstExpr stmt = some expr) :
      Begins (point, stmt) (point.memory, expr)
  | assigned {point : Point} {lvalue value : TExpr} {target : Bool × Place} {between : Memory}
      (ran : (eval host call point.frame lvalue >>= asReference) point.memory =
        (.ok target, between)) :
      Begins (point, .assign lvalue value) (between, value)
  | final {point : Point} {name : Identifier} {start final : TExpr} {body : TStmt} {first : Int}
      {between : Memory}
      (ran : (eval host call point.frame start >>= asInt) point.memory = (.ok first, between)) :
      Begins (point, .forStmt name start final body) (between, final)
  | condition {point : Point} {condition : TExpr} {body : TStmt} {between : Memory}
      (rounds : Rounds (whileRound host call limit point.frame condition body) point.memory
        between) :
      Begins (point, .whileStmt condition body) (between, condition)

/-- The execution of a statement begins that of a part of it. -/
inductive Enters : Point × TStmt → Point × TStmt → Prop
  | letBody {point : Point} {mutability : Mutability} {name : Identifier} {ty : Ty} {body : TStmt}
      {cell : Nat} {between : Memory}
      (allocated : alloc .uninitialized point.memory = (.ok cell, between)) :
      Enters (point, .letStmt mutability name ty body)
        (⟨bindHead point.env body, (.named name.string, cell) :: point.frame, between⟩, body)
  | destructured {point : Point} {mutability : Mutability} {bindings : List TypedBinding}
      {value : TExpr} {body : TStmt} {whole : Value} {inner : Frame} {between after : Memory}
      (ranValue : eval host call point.frame value point.memory = (.ok whole, between))
      (ranSlots : bindSlots (fun name => whole.slot name) point.frame bindings between =
        (.ok inner, after)) :
      Enters (point, .destructure mutability bindings value body)
        (⟨point.env, inner, after⟩, body)
  | consequent {point : Point} {condition : TExpr} {consequent alternative : TStmt}
      {between : Memory}
      (ran : (eval host call point.frame condition >>= asBool) point.memory = (.ok true, between)) :
      Enters (point, .ifStmt condition consequent alternative)
        (⟨point.env, point.frame, between⟩, consequent)
  | alternative {point : Point} {condition : TExpr} {consequent alternative : TStmt}
      {between : Memory}
      (ran : (eval host call point.frame condition >>= asBool) point.memory =
        (.ok false, between)) :
      Enters (point, .ifStmt condition consequent alternative)
        (⟨point.env, point.frame, between⟩, alternative)
  | arm {point : Point} {value : TExpr} {whens : List (TypedWhen TStmt)} {kind : CaseRef}
      {tag : Identifier} {pick : Identifier → Option Value} {arm : TypedWhen TStmt}
      {inner : Frame} {between after : Memory}
      (ranParts : (eval host call point.frame value >>= scrutinee kind) point.memory =
        (.ok (tag, pick), between))
      (isArm : whens.find? (fun arm => arm.name = tag) = some arm)
      (ranSlots : bindSlots pick point.frame arm.bindings between = (.ok inner, after)) :
      Enters (point, .caseStmt value whens kind) (⟨point.env, inner, after⟩, arm.body)
  | whileBody {point : Point} {condition : TExpr} {body : TStmt} {between after : Memory}
      (rounds : Rounds (whileRound host call limit point.frame condition body) point.memory
        between)
      (ran : (eval host call point.frame condition >>= asBool) between = (.ok true, after)) :
      Enters (point, .whileStmt condition body) (⟨point.env, point.frame, after⟩, body)
  | forBody {point : Point} {name : Identifier} {start final : TExpr} {body : TStmt}
      {first last current : Int} {cell : Nat} {started bounded counted between after : Memory}
      (ranFirst : (eval host call point.frame start >>= asInt) point.memory = (.ok first, started))
      (ranLast : (eval host call point.frame final >>= asInt) started = (.ok last, bounded))
      (allocated : alloc (.int first) bounded = (.ok cell, counted))
      (rounds : Rounds (forRound host call limit point.frame name cell last body) counted between)
      (isCurrent : (load ⟨cell, []⟩ >>= asInt) between = (.ok current, after))
      (again : current ≤ last) :
      Enters (point, .forStmt name start final body)
        (⟨point.env, (.named name.string, cell) :: point.frame, after⟩, body)
  | borrowBody {point : Point} {original rename region : Identifier} {origType refType : Ty}
      {body : TStmt} {mode : BorrowStmtKind} {reference : Value} {cell : Nat}
      {between after : Memory}
      (made : borrowed point.frame original mode point.memory = (.ok reference, between))
      (allocated : alloc reference between = (.ok cell, after)) :
      Enters (point, .borrow original rename region origType refType body mode)
        (⟨bindBorrow point.env original rename origType mode,
          (.named rename.string, cell) :: point.frame, after⟩, body)
  | blockFirst {point : Point} {first second : TStmt} :
      Enters (point, .block first second) (point, first)
  | blockSecond {point : Point} {first second : TStmt} {inner : Frame} {after : Memory}
      (ran : execStmt host call limit point.frame first point.memory = (.ok (inner, none), after)) :
      Enters (point, .block first second)
        (⟨(callsInStmt point.env [] first).2, inner, after⟩, second)

/-- An execution of a body comes to an expression. -/
def Reaches (entry : Point) (body : TStmt) (point : Point) (expr : TExpr) : Prop :=
  ∃ memory stmt whole,
    Relation.ReflTransGen (Enters host call limit) (entry, body)
      (⟨point.env, point.frame, memory⟩, stmt) ∧
    Begins host call limit (⟨point.env, point.frame, memory⟩, stmt) whole ∧
    Relation.ReflTransGen (Computes host call point.frame) whole (point.memory, expr)

end Reached

/-! ## The sites of the walk -/

/-- A part of the walk adds sites that the whole walk adds too. -/
def Visits (part whole : List CallSite → List CallSite) : Prop :=
  ∀ acc, ∃ before, part before ⊆ whole acc

def Grows (walk : List CallSite → List CallSite) : Prop := ∀ acc, acc ⊆ walk acc

section Walks

variable {first second third : List CallSite → List CallSite}

theorem Visits.refl (walk : List CallSite → List CallSite) : Visits walk walk :=
  fun acc => ⟨acc, List.Subset.refl _⟩

theorem Visits.trans (inner : Visits first second) (outer : Visits second third) :
    Visits first third := by
  intro acc
  obtain ⟨middle, inOuter⟩ := outer acc
  obtain ⟨before, inInner⟩ := inner middle
  exact ⟨before, List.Subset.trans inInner inOuter⟩

theorem Visits.andThen (visits : Visits first second) (grows : Grows third) :
    Visits first (fun acc => third (second acc)) := by
  intro acc
  obtain ⟨before, isPart⟩ := visits acc
  exact ⟨before, List.Subset.trans isPart (grows _)⟩

theorem Visits.after (visits : Visits first second) (third : List CallSite → List CallSite) :
    Visits first (fun acc => second (third acc)) :=
  fun acc => visits (third acc)

theorem Grows.andThen (growsFirst : Grows first) (growsSecond : Grows second) :
    Grows (fun acc => second (first acc)) :=
  fun acc => List.Subset.trans (growsFirst acc) (growsSecond _)

theorem grows_id : Grows fun acc => acc := fun acc => List.Subset.refl acc

end Walks

section Expressions

variable {env : TempEnv} {host : Host} {call : Typed.Callee → List Value → Run Value} {limit : Nat}
  {frame : Frame}

theorem callsInFields_eq (acc : List CallSite) (fields : List (Identifier × TExpr)) :
    callsInFields env acc fields = callsInExprs env acc (fields.map Prod.snd) := by
  induction fields generalizing acc with
  | nil => simp only [callsInFields, callsInExprs, map_nil]
  | cons _ _ ih => simp only [callsInFields, callsInExprs, map_cons, ih]

theorem grows_push (site : CallSite) : Grows fun acc => site :: acc :=
  fun acc => subset_cons_self site acc

mutual
theorem grows_callsInExpr (expr : TExpr) : Grows fun acc => callsInExpr env acc expr := by
  cases expr with simp only [callsInExpr]
  | funcall id name args rt =>
    exact (grows_push ⟨some id, name, args, env, rt⟩).andThen (grows_callsInExprs args)
  | methodCall _ name _ args rt =>
    exact (grows_push ⟨none, name, args, env, rt⟩).andThen (grows_callsInExprs args)
  | varMethodCall _ _ _ _ args | fptrCall _ args | embed _ _ args => exact grows_callsInExprs args
  | cast expr | negation expr | deref expr | slotAccessor expr | pointerSlotAccessor expr =>
    exact grows_callsInExpr expr
  | comparison _ lhs rhs | conjunction lhs rhs | disjunction lhs rhs | arrayIndex lhs rhs
  | spanIndex lhs rhs => exact (grows_callsInExpr lhs).andThen (grows_callsInExpr rhs)
  | ifExpression condition consequent alternative =>
    exact ((grows_callsInExpr condition).andThen (grows_callsInExpr consequent)).andThen
      (grows_callsInExpr alternative)
  | recordConstructor _ args | unionConstructor _ _ args => exact grows_callsInFields args
  | nilConstant | boolConstant | intConstant | floatConstant | stringConstant | constVar | paramVar
  | localVar | temporary | funVar | sizeOf => exact grows_id
theorem grows_callsInExprs (exprs : List TExpr) : Grows fun acc => callsInExprs env acc exprs := by
  cases exprs with simp only [callsInExprs]
  | nil => exact grows_id
  | cons expr exprs => exact (grows_callsInExpr expr).andThen (grows_callsInExprs exprs)
theorem grows_callsInFields (fields : List (Identifier × TExpr)) :
    Grows fun acc => callsInFields env acc fields := by
  match fields with
  | [] =>
    simp only [callsInFields]
    exact grows_id
  | (_, expr) :: fields =>
    simp only [callsInFields]
    exact (grows_callsInExpr expr).andThen (grows_callsInFields fields)
end

theorem visits_callsInExprs (isMember : expr ∈ exprs) :
    Visits (fun acc => callsInExpr env acc expr) (fun acc => callsInExprs env acc exprs) := by
  induction exprs with
  | nil => cases isMember
  | cons _ exprs ih =>
    simp only [callsInExprs]
    rcases mem_cons.mp isMember with rfl | inRest
    · exact (Visits.refl _).andThen (grows_callsInExprs exprs)
    · exact (ih inRest).after _

theorem visits_operand (isOperand : arg ∈ operands expr) :
    Visits (fun acc => callsInExpr env acc arg) (fun acc => callsInExpr env acc expr) := by
  cases expr with
  | funcall | methodCall =>
    simp only [callsInExpr]
    exact (visits_callsInExprs isOperand).after _
  | varMethodCall | fptrCall | embed =>
    simp only [callsInExpr]
    exact visits_callsInExprs isOperand
  | cast | negation | deref | slotAccessor | pointerSlotAccessor =>
    cases mem_singleton.mp isOperand
    simp only [callsInExpr]
    exact .refl _
  | comparison _ _ rhs | arrayIndex _ rhs | spanIndex _ rhs =>
    simp only [callsInExpr]
    rcases mem_pair.mp isOperand with rfl | rfl
    · exact (Visits.refl _).andThen (grows_callsInExpr rhs)
    · exact (Visits.refl _).after _
  | conjunction _ rhs | disjunction _ rhs =>
    cases mem_singleton.mp isOperand
    simp only [callsInExpr]
    exact (Visits.refl _).andThen (grows_callsInExpr rhs)
  | ifExpression _ consequent alternative =>
    cases mem_singleton.mp isOperand
    simp only [callsInExpr]
    exact ((Visits.refl _).andThen (grows_callsInExpr consequent)).andThen
      (grows_callsInExpr alternative)
  | recordConstructor | unionConstructor =>
    simp only [callsInExpr, callsInFields_eq]
    exact visits_callsInExprs isOperand
  | nilConstant | boolConstant | intConstant | floatConstant | stringConstant | constVar | paramVar
  | localVar | temporary | funVar | sizeOf => cases isOperand

theorem visits_of_computes (computes : Computes host call frame whole part) :
    Visits (fun acc => callsInExpr env acc part.2) (fun acc => callsInExpr env acc whole.2) := by
  cases computes with simp only [callsInExpr]
  | operand isOperand => exact visits_operand (by rw [isOperand]; simp)
  | conjunct | disjunct | alternative => exact (Visits.refl _).after _
  | @consequent _ _ alternative =>
    exact ((Visits.refl _).after _).andThen (grows_callsInExpr alternative)

theorem visits_of_computesAll
    (computes : Relation.ReflTransGen (Computes host call frame) whole part) :
    Visits (fun acc => callsInExpr env acc part.2) (fun acc => callsInExpr env acc whole.2) := by
  induction computes with
  | refl => exact .refl _
  | tail _ step ih => exact (visits_of_computes step).trans ih

end Expressions

section Statements

def sitesIn (env : TempEnv) (stmt : TStmt) (acc : List CallSite) : List CallSite :=
  (callsInStmt env acc stmt).1

theorem callsInStmt_snd (stmt : TStmt) (env : TempEnv) (acc : List CallSite) :
    (callsInStmt env acc stmt).2 = (callsInStmt env [] stmt).2 := by
  induction stmt generalizing env acc with
  | destructure _ _ value _ ih =>
    simp only [callsInStmt]
    rw [ih, ih env (callsInExpr env [] value)]
  | borrow _ _ _ _ _ _ _ ih =>
    simp only [callsInStmt]
    exact ih _ acc
  | block first _ ihFirst ihSecond =>
    simp only [callsInStmt]
    rw [ihFirst, ihSecond, ihSecond _ (callsInStmt env [] first).1]
  | skip | letStmt | letTmp | assignTmp | assignVar | initialAssign | returnStmt | discarding
  | assign | ifStmt | caseStmt | whileStmt | forStmt => simp only [callsInStmt]

theorem grows_callsInWhens (each : ∀ arm ∈ whens, ∀ env, Grows (sitesIn env arm.body)) :
    Grows fun acc => callsInWhens env acc whens := by
  induction whens with
  | nil =>
    simp only [callsInWhens]
    exact grows_id
  | cons arm _ ih =>
    simp only [callsInWhens]
    exact (each arm mem_cons_self env).andThen
      (ih (forall_mem_cons.mp each).2)

theorem grows_sitesIn (stmt : TStmt) (env : TempEnv) : Grows (sitesIn env stmt) := by
  unfold sitesIn
  induction stmt generalizing env with simp only [callsInStmt]
  | skip => exact grows_id
  | letStmt _ _ _ _ ih => exact ih _
  | letTmp _ _ value | assignTmp _ value | assignVar _ value | initialAssign _ value
  | returnStmt value | discarding value => exact grows_callsInExpr value
  | destructure _ _ value _ ih => exact (grows_callsInExpr value).andThen (ih env)
  | assign lvalue value => exact (grows_callsInExpr lvalue).andThen (grows_callsInExpr value)
  | ifStmt condition _ _ ihConsequent ihAlternative =>
    exact ((grows_callsInExpr condition).andThen (ihConsequent env)).andThen (ihAlternative env)
  | caseStmt value _ _ ih => exact (grows_callsInExpr value).andThen (grows_callsInWhens ih)
  | whileStmt condition _ ih | forStmt _ _ condition _ ih =>
    exact (grows_callsInExpr condition).andThen (ih env)
  | borrow _ _ _ _ _ _ _ ih => exact ih _
  | block first _ ihFirst ihSecond =>
    simp only [callsInStmt_snd first]
    exact (ihFirst env).andThen (ihSecond _)

theorem visits_arm (isMember : arm ∈ whens) :
    Visits (sitesIn env arm.body) (fun acc => callsInWhens env acc whens) := by
  induction whens with
  | nil => cases isMember
  | cons _ _ ih =>
    simp only [callsInWhens]
    rcases mem_cons.mp isMember with rfl | inRest
    · exact (Visits.refl _).andThen (grows_callsInWhens fun arm _ => grows_sitesIn arm.body)
    · exact (ih inRest).after _

variable {host : Host} {call : Typed.Callee → List Value → Run Value} {limit : Nat}

theorem visits_of_enters (enters : Enters host call limit whole part) :
    Visits (sitesIn part.1.env part.2) (sitesIn whole.1.env whole.2) := by
  unfold sitesIn
  cases enters with simp only [callsInStmt]
  | letBody | borrowBody => exact .refl _
  | @consequent point _ _ alternative =>
    exact ((Visits.refl _).after _).andThen (grows_sitesIn alternative point.env)
  | arm _ isArm => exact (visits_arm (mem_of_find?_eq_some isArm)).after _
  | destructured | alternative | whileBody | forBody => exact (Visits.refl _).after _
  | @blockFirst point first second =>
    simp only [callsInStmt_snd first]
    exact (Visits.refl _).andThen (grows_sitesIn second _)
  | @blockSecond _ first _ =>
    simp only [callsInStmt_snd first]
    exact (Visits.refl _).after _

theorem visits_of_entersAll (enters : Relation.ReflTransGen (Enters host call limit) whole part) :
    Visits (sitesIn part.1.env part.2) (sitesIn whole.1.env whole.2) := by
  induction enters with
  | refl => exact .refl _
  | tail _ step ih => exact (visits_of_enters step).trans ih

theorem visits_of_begins (begins : Begins host call limit (point, stmt) begun) :
    Visits (fun acc => callsInExpr point.env acc begun.2) (sitesIn point.env stmt) := by
  unfold sitesIn
  cases begins with
  | first isFirst =>
    cases stmt with cases isFirst <;> simp only [callsInStmt]
    | letTmp | assignTmp | assignVar | initialAssign | returnStmt | discarding => exact .refl _
    | destructure _ _ _ body => exact (Visits.refl _).andThen (grows_sitesIn body point.env)
    | assign _ value => exact (Visits.refl _).andThen (grows_callsInExpr value)
    | ifStmt _ consequent alternative =>
      exact ((Visits.refl _).andThen (grows_sitesIn consequent point.env)).andThen
        (grows_sitesIn alternative point.env)
    | caseStmt =>
      exact (Visits.refl _).andThen (grows_callsInWhens fun arm _ => grows_sitesIn arm.body)
  | assigned =>
    simp only [callsInStmt]
    exact (Visits.refl _).after _
  | final | condition =>
    simp only [callsInStmt]
    exact (Visits.refl _).andThen (grows_sitesIn _ point.env)

theorem site_mem_of_reaches {id : DeclId} {name : QIdent} {args : List TExpr} {rt : Ty}
    {bindings : TypeBindings}
    (reaches : Reaches host call limit entry body point (.funcall id name args rt bindings)) :
    ⟨some id, name, args, point.env, rt⟩ ∈ (callsInStmt entry.env [] body).1 := by
  obtain ⟨_, _, _, enters, begins, computes⟩ := reaches
  have visits := ((visits_of_computesAll computes).trans (visits_of_begins begins)).trans
    (visits_of_entersAll enters)
  obtain ⟨_, isPart⟩ := visits []
  refine isPart ?_
  simp only [callsInExpr]
  exact grows_callsInExprs _ _ mem_cons_self

end Statements

end AustralVM.Liquid.Constraints
