import AustralVM.TotalityCheck

/-!
# What a function with a contract can reach

The calls of a whole program: direct calls, calls of methods and calls through
function pointers, wherever they stand in an expression.  A function is total if
nothing that it reaches is recursive, loops, is foreign or is embedded.
-/

namespace AustralVM.Liquid

open List Relation

/-! ## The operations of a body -/

inductive Operation
  | call (id : DeclId)
  /-- A function as a value, which may be called through a pointer. -/
  | value (id : DeclId)
  | method (id : InsMethId)
  | varMethod (typeclassId : DeclId) (name : Identifier)
  | pointer
  | embed
  deriving DecidableEq, Repr

mutual

def exprOperations : TExpr → List Operation
  | .nilConstant | .boolConstant _ | .intConstant _ | .floatConstant _ | .stringConstant _
  | .constVar _ _ | .paramVar _ _ | .localVar _ _ | .temporary _ _ | .sizeOf _ => []
  | .funVar id _ _ => [.value id]
  | .funcall id _ args _ _ => .call id :: argsOperations args
  | .methodCall id _ _ args _ _ => .method id :: argsOperations args
  | .varMethodCall _ typeclassId _ name args _ _ _ =>
    .varMethod typeclassId name.original :: argsOperations args
  | .fptrCall _ args _ => .pointer :: argsOperations args
  | .embed _ _ args => .embed :: argsOperations args
  | .cast expr _ | .negation expr | .slotAccessor expr _ _ | .pointerSlotAccessor expr _ _
  | .deref expr => exprOperations expr
  | .comparison _ lhs rhs | .conjunction lhs rhs | .disjunction lhs rhs
  | .arrayIndex lhs rhs _ | .spanIndex lhs rhs _ => exprOperations lhs ++ exprOperations rhs
  | .ifExpression condition consequent alternative =>
    exprOperations condition ++ exprOperations consequent ++ exprOperations alternative
  | .recordConstructor _ args | .unionConstructor _ _ args => fieldsOperations args

def argsOperations : List TExpr → List Operation
  | [] => []
  | expr :: exprs => exprOperations expr ++ argsOperations exprs

def fieldsOperations : List (Identifier × TExpr) → List Operation
  | [] => []
  | (_, expr) :: fields => exprOperations expr ++ fieldsOperations fields

end

mutual

def stmtOperations : TStmt → List Operation
  | .skip => []
  | .letStmt _ _ _ body | .borrow _ _ _ _ _ body _ => stmtOperations body
  | .letTmp _ _ value | .assignTmp _ value | .assignVar _ value | .initialAssign _ value
  | .discarding value | .returnStmt value => exprOperations value
  | .destructure _ _ value body | .whileStmt value body =>
    exprOperations value ++ stmtOperations body
  | .assign lvalue value => exprOperations lvalue ++ exprOperations value
  | .ifStmt condition consequent alternative =>
    exprOperations condition ++ stmtOperations consequent ++ stmtOperations alternative
  | .caseStmt scrutinee whens _ => exprOperations scrutinee ++ whensOperations whens
  | .forStmt _ start final body =>
    exprOperations start ++ exprOperations final ++ stmtOperations body
  | .block first second => stmtOperations first ++ stmtOperations second

def whensOperations : List (TypedWhen TStmt) → List Operation
  | [] => []
  | ⟨_, _, body⟩ :: whens => stmtOperations body ++ whensOperations whens

end

/-! ## The calls of a program -/

inductive Callable
  | decl (id : DeclId)
  | method (id : InsMethId)
  deriving DecidableEq, Repr

section Program

variable (program : List TypedModule)

inductive HasBody : Callable → TStmt → Prop
  | function {source : TypedModule} {id : DeclId} {name : Identifier}
      {typarams : List TypeParameter} {params : List ValueParameter} {rt : Ty} {body : TStmt}
      {pragmas : List Pragma} (inProgram : source ∈ program)
      (declared : .function id name typarams params rt body pragmas ∈ source.decls) :
      HasBody (.decl id) body
  | method {source : TypedModule} {id : DeclId} {typeclassName : QIdent}
      {typarams : List TypeParameter} {argument : Ty} {methods : List TypedMethodDef}
      {method : TypedMethodDef} (inProgram : source ∈ program)
      (declared : .instanceDecl id typeclassName typarams argument methods ∈ source.decls)
      (member : method ∈ methods) : HasBody (.method method.id) method.body

inductive IsForeign : Callable → Prop
  | foreign {source : TypedModule} {id : DeclId} {name : Identifier}
      {params : List ValueParameter} {rt : Ty} {externalName : String} {pragmas : List Pragma}
      (inProgram : source ∈ program)
      (declared : .foreignFunction id name params rt externalName pragmas ∈ source.decls) :
      IsForeign (.decl id)

inductive Implements : DeclId → Identifier → InsMethId → Prop
  | method {classModule source : TypedModule} {typeclassId id : DeclId} {className : Identifier}
      {typeclassName : QIdent} {typarams : List TypeParameter} {argument : Ty}
      {methods : List TypedMethodDef} {method : TypedMethodDef}
      (classInProgram : classModule ∈ program)
      (isClass : .typeClass typeclassId className ∈ classModule.decls)
      (inProgram : source ∈ program)
      (declared : .instanceDecl id typeclassName typarams argument methods ∈ source.decls)
      (ofClass : typeclassName.source = classModule.name ∧ typeclassName.original = className)
      (member : method ∈ methods) : Implements typeclassId method.name method.id

/-- What an operation may call.  A call through a pointer may call each function
that the program uses as a value. -/
inductive Leads : Operation → Callable → Prop
  | call (id : DeclId) : Leads (.call id) (.decl id)
  | value (id : DeclId) : Leads (.value id) (.decl id)
  | method (id : InsMethId) : Leads (.method id) (.method id)
  | varMethod {typeclassId : DeclId} {name : Identifier} {id : InsMethId}
      (implements : Implements program typeclassId name id) :
      Leads (.varMethod typeclassId name) (.method id)
  | pointer {holder : Callable} {body : TStmt} {id : DeclId} (hasBody : HasBody program holder body)
      (taken : .value id ∈ stmtOperations body) : Leads .pointer (.decl id)

def Calls (caller callee : Callable) : Prop :=
  ∃ body operation, HasBody program caller body ∧ operation ∈ stmtOperations body ∧
    Leads program operation callee

/-- Neither foreign nor embedded, and without a loop of its own. -/
def Clean (callable : Callable) : Prop :=
  ¬ IsForeign program callable ∧ ∀ body, HasBody program callable body →
    loopsInStmt body = false ∧ .embed ∉ stmtOperations body

/-- Everything that can be reached is clean and not recursive. -/
def Total (callable : Callable) : Prop :=
  ∀ reached, ReflTransGen (Calls program) callable reached →
    Clean program reached ∧ ¬ TransGen (Calls program) reached reached

end Program

/-! ## The calls that the gate sees -/

def Scans (source : TypedModule) : Callable → Callable → Prop
  | .decl caller, .decl callee => GraphEdge ((gateTables source).graph.lookup ·) caller callee
  | _, _ => False

/-- An operation that the scan takes for a call of a function. -/
def Mentions (operations : List Operation) (id : DeclId) : Prop :=
  .call id ∈ operations ∨ .value id ∈ operations

variable {id : DeclId} {acc : List DeclId} {program : List TypedModule} {source : TypedModule}

theorem Mentions.mono (mentions : Mentions first id) (sub : first ⊆ second) : Mentions second id :=
  mentions.imp (fun member => sub member) fun member => sub member

/-- What a scan adds is mentioned. -/
def Finds (scan : List DeclId → List DeclId) (operations : List Operation) : Prop :=
  ∀ acc id, id ∈ scan acc → id ∈ acc ∨ Mentions operations id

theorem Finds.andThen (first : Finds scan earlier) (second : Finds rescan later) :
    Finds (fun acc => rescan (scan acc)) (earlier ++ later) := by
  intro acc id member
  rcases second _ id member with before | mentions
  · exact (first acc id before).imp_right (·.mono (subset_append_left _ _))
  · exact .inr (mentions.mono (subset_append_right _ _))

theorem finds_push (mentions : Mentions operations id) : Finds (id :: ·) operations := by
  intro _ _ member
  rcases mem_cons.mp member with rfl | old
  · exact .inr mentions
  · exact .inl old

mutual
theorem finds_callsInExpr (expr : TExpr) : Finds (callsInExpr · expr) (exprOperations expr) := by
  cases expr with
  | funVar => exact finds_push (.inr mem_cons_self)
  | funcall id _ args =>
    have pushed : Finds (id :: ·) [.call id] := finds_push (.inl mem_cons_self)
    exact pushed.andThen (finds_callsInExprs args)
  | cast expr | negation expr | slotAccessor expr | pointerSlotAccessor expr =>
    exact finds_callsInExpr expr
  | comparison _ lhs rhs | conjunction lhs rhs | disjunction lhs rhs =>
    exact (finds_callsInExpr lhs).andThen (finds_callsInExpr rhs)
  | ifExpression condition consequent alternative =>
    exact ((finds_callsInExpr condition).andThen (finds_callsInExpr consequent)).andThen
      (finds_callsInExpr alternative)
  | recordConstructor _ args | unionConstructor _ _ args => exact finds_callsInFields args
  | _ => exact fun _ _ => .inl
theorem finds_callsInExprs (exprs : List TExpr) :
    Finds (callsInExprs · exprs) (argsOperations exprs) := by
  cases exprs with
  | nil => exact fun _ _ => .inl
  | cons expr exprs => exact (finds_callsInExpr expr).andThen (finds_callsInExprs exprs)
theorem finds_callsInFields (fields : List (Identifier × TExpr)) :
    Finds (callsInFields · fields) (fieldsOperations fields) := by
  match fields with
  | [] => exact fun _ _ => .inl
  | (_, expr) :: fields => exact (finds_callsInExpr expr).andThen (finds_callsInFields fields)
end

mutual
theorem finds_callsInStmt (stmt : TStmt) : Finds (callsInStmt · stmt) (stmtOperations stmt) := by
  cases stmt with
  | skip => exact fun _ _ => .inl
  | letStmt _ _ _ body | borrow _ _ _ _ _ body => exact finds_callsInStmt body
  | destructure _ _ value body | whileStmt value body =>
    exact (finds_callsInExpr value).andThen (finds_callsInStmt body)
  | assign lvalue value => exact (finds_callsInExpr lvalue).andThen (finds_callsInExpr value)
  | ifStmt condition consequent alternative =>
    exact ((finds_callsInExpr condition).andThen (finds_callsInStmt consequent)).andThen
      (finds_callsInStmt alternative)
  | caseStmt scrutinee whens =>
    exact (finds_callsInExpr scrutinee).andThen (finds_callsInWhens whens)
  -- the scan passes over the start of the loop
  | forStmt _ start final body =>
    have passed : Finds id (exprOperations start) := fun _ _ => .inl
    exact (passed.andThen (finds_callsInExpr final)).andThen (finds_callsInStmt body)
  | block first second => exact (finds_callsInStmt first).andThen (finds_callsInStmt second)
  | letTmp _ _ value | assignTmp _ value | assignVar _ value | initialAssign _ value
  | discarding value | returnStmt value => exact finds_callsInExpr value
theorem finds_callsInWhens (whens : List (TypedWhen TStmt)) :
    Finds (callsInWhens · whens) (whensOperations whens) := by
  match whens with
  | [] => exact fun _ _ => .inl
  | ⟨_, _, body⟩ :: whens => exact (finds_callsInStmt body).andThen (finds_callsInWhens whens)
end

/-! ## The tables of the gate -/

theorem mem_graph_gateTables {decls : List TypedDecl}
    (member : (id, calls) ∈ (decls.foldl GateTables.add tables).graph) :
    (id, calls) ∈ tables.graph ∨ ∃ name typarams params rt body pragmas,
      .function id name typarams params rt body pragmas ∈ decls ∧ calls = callsInStmt [] body := by
  induction decls generalizing tables with
  | nil => exact .inl member
  | cons decl _ ih =>
    rcases ih member with
      before | ⟨name, typarams, params, rt, body, pragmas, declared, eq⟩
    · cases decl with
      | function _ name typarams params rt body pragmas =>
        rcases mem_cons.mp before with same | old
        · obtain ⟨rfl, rfl⟩ := Prod.mk.inj same
          exact .inr ⟨name, typarams, params, rt, body, pragmas, mem_cons_self, rfl⟩
        · exact .inl old
      | _ => exact .inl before
    · exact .inr ⟨name, typarams, params, rt, body, pragmas, mem_cons_of_mem _ declared, eq⟩

theorem calls_of_scans (inProgram : source ∈ program) {caller callee : Callable}
    (scans : Scans source caller callee) : Calls program caller callee := by
  cases caller with
  | method => cases scans
  | decl caller =>
    cases callee with
    | method => cases scans
    | decl callee =>
      obtain ⟨calls, found, member⟩ := scans
      obtain ⟨front, _, graph, -⟩ := lookup_eq_some_iff.mp found
      have inGraph : (caller, calls) ∈ (gateTables source).graph := by
        rw [graph]
        exact mem_append_right front mem_cons_self
      rcases mem_graph_gateTables inGraph with
        absent | ⟨name, typarams, params, rt, body, pragmas, declared, rfl⟩
      · cases absent
      · have hasBody : HasBody program (.decl caller) body := .function inProgram declared
        rcases finds_callsInStmt _ _ _ member with absent | isCall | isValue
        · cases absent
        · exact ⟨body, .call callee, hasBody, isCall, .call callee⟩
        · exact ⟨body, .value callee, hasBody, isValue, .value callee⟩

theorem transGen_graphEdge (walk : TransGen (Scans source) caller callee) :
    ∃ first last, caller = .decl first ∧ callee = .decl last ∧
      TransGen (GraphEdge ((gateTables source).graph.lookup ·)) first last := by
  have functions : ∀ {caller callee : Callable}, Scans source caller callee →
      ∃ first last, caller = .decl first ∧ callee = .decl last ∧
        GraphEdge ((gateTables source).graph.lookup ·) first last := by
    intro caller callee scans
    cases caller with
    | method => cases scans
    | decl first =>
      cases callee with
      | method => cases scans
      | decl last => exact ⟨first, last, rfl, rfl, scans⟩
  induction walk with
  | single edge =>
    obtain ⟨first, last, isFirst, isLast, scans⟩ := functions edge
    exact ⟨first, last, isFirst, isLast, .single scans⟩
  | tail _ edge ih =>
    obtain ⟨first, _, isFirst, rfl, before⟩ := ih
    obtain ⟨_, last, isSame, isLast, scans⟩ := functions edge
    cases isSame
    exact ⟨first, last, isFirst, isLast, .tail before scans⟩

theorem no_scanned_cycle (accepted : checkFunction name id body (gateTables source) refined = none)
    (walk : ReflTransGen (Scans source) (.decl id) reached) :
    ¬ TransGen (Scans source) reached reached := by
  intro cycle
  have nothing : searchCycle (gateTables source).graph id = none := by
    rw [checkFunction] at accepted
    split at accepted
    · cases accepted
    · split_ifs at accepted
      split at accepted
      · rename_i found
        exact found
      · cases accepted
  obtain ⟨_, _, isFirst, rfl, toReached⟩ := transGen_graphEdge (TransGen.trans_right walk cycle)
  cases isFirst
  obtain ⟨_, _, isStart, isStop, around⟩ := transGen_graphEdge cycle
  cases isStart
  cases isStop
  exact no_cycle_of_searchCycle_eq_none nothing toReached around

theorem scanned_or_leaves (walk : TransGen (Calls program) start reached) :
    TransGen (Scans source) start reached ∨
      ∃ last next, ReflTransGen (Scans source) start last ∧ Calls program last next ∧
        ¬ Scans source last next ∧ ReflTransGen (Calls program) next reached := by
  induction walk with
  | @single reached edge =>
    by_cases scans : Scans source start reached
    · exact .inl (.single scans)
    · exact .inr ⟨start, reached, .refl, edge, scans, .refl⟩
  | @tail middle reached walk edge ih =>
    rcases ih with seen | ⟨last, next, seen, call, unseen, rest⟩
    · by_cases scans : Scans source middle reached
      · exact .inl (.tail seen scans)
      · exact .inr ⟨middle, reached, seen.to_reflTransGen, edge, scans, .refl⟩
    · exact .inr ⟨last, next, seen, call, unseen, rest.tail edge⟩

/-- A function that the gate accepts is total exactly if what the gate sees of its
calls is clean, and what it calls there unseen is total. -/
theorem accepted_function_total_iff (inProgram : source ∈ program) {id : DeclId} {name : String}
    {body : TStmt} {refined : List String}
    (accepted : checkFunction name id body (gateTables source) refined = none) :
    Total program (.decl id) ↔ ∀ seen, ReflTransGen (Scans source) (.decl id) seen →
        Clean program seen ∧ ∀ callee, Calls program seen callee → ¬ Scans source seen callee →
            Total program callee := by
  have scansCalls : ∀ first last, Scans source first last → Calls program first last :=
    fun first last => calls_of_scans inProgram
  constructor
  · intro total seen walk
    have reaches := ReflTransGen.mono scansCalls _ _ walk
    refine ⟨(total seen reaches).1, ?_⟩
    intro _ call _ reached rest
    exact total reached ((reaches.tail call).trans rest)
  · intro condition
    -- from a function that the gate sees, a recursive walk leaves the gate's sight
    have seenTotal : ∀ seen, ReflTransGen (Scans source) (.decl id) seen →
        ¬ TransGen (Calls program) seen seen := by
      intro seen walk cycle
      rcases @scanned_or_leaves program source seen seen cycle with
        scanned | ⟨last, next, toLast, call, unseen, rest⟩
      · exact no_scanned_cycle accepted walk scanned
      · exact (((condition last (walk.trans toLast)).2 next call unseen) seen rest).2 cycle
    intro reached walk
    rcases reflTransGen_iff_eq_or_transGen.mp walk with rfl | steps
    · exact ⟨(condition _ .refl).1, seenTotal _ .refl⟩
    · rcases @scanned_or_leaves program source _ _ steps with
        scanned | ⟨last, next, toLast, call, unseen, rest⟩
      · have seen := scanned.to_reflTransGen
        exact ⟨(condition reached seen).1, seenTotal reached seen⟩
      · exact (condition last toLast).2 next call unseen reached rest

/-- A function that calls one that calls another. -/
theorem accepted_function_total_at_chain :
    let calls (id : Nat) (name : String) : TStmt :=
      .returnStmt (.funcall ⟨id⟩ ⟨⟨"Example"⟩, ⟨name⟩, ⟨name⟩⟩ [] .unit .empty)
    let zero : TypedDecl := .function ⟨1⟩ ⟨"zero"⟩ [] [] .unit (.returnStmt .nilConstant) []
    let step : TypedDecl := .function ⟨2⟩ ⟨"step"⟩ [] [] .unit (calls 1 "zero") []
    let top : TypedDecl := .function ⟨3⟩ ⟨"top"⟩ [] [] .unit (calls 2 "step")
      [.liquid "Ensures" "result == 0"]
    let source : TypedModule := ⟨⟨"Example"⟩, [zero, step, top]⟩
    Total [source] (.decl ⟨3⟩) := by
  intro calls zero step top source
  have declared {decl : TypedDecl} {other : TypedModule} (inProgram : other ∈ [source])
      (isDecl : decl ∈ other.decls) : decl = zero ∨ decl = step ∨ decl = top := by
    cases mem_singleton.mp inProgram
    simpa [source] using isDecl
  have bodies {callable : Callable} {body : TStmt} (hasBody : HasBody [source] callable body) :
      callable = .decl ⟨1⟩ ∧ body = .returnStmt .nilConstant ∨
        callable = .decl ⟨2⟩ ∧ body = calls 1 "zero" ∨
        callable = .decl ⟨3⟩ ∧ body = calls 2 "step" := by
    cases hasBody with
    | function inProgram isDecl =>
      rcases declared inProgram isDecl with same | same | same <;>
        simp_all [zero, step, top]
    | method inProgram isDecl =>
      rcases declared inProgram isDecl with same | same | same <;> simp [zero, step, top] at same
  have accepted : checkFunction "top" ⟨3⟩ (calls 2 "step") (gateTables source) [] = none := rfl
  refine (accepted_function_total_iff mem_cons_self accepted).mpr fun seen _ => ⟨⟨?_, ?_⟩, ?_⟩
  · rintro ⟨inProgram, isDecl⟩
    rcases declared inProgram isDecl with same | same | same <;> simp [zero, step, top] at same
  · intro body hasBody
    rcases bodies hasBody with ⟨-, rfl⟩ | ⟨-, rfl⟩ | ⟨-, rfl⟩ <;> exact ⟨rfl, by decide⟩
  · rintro callee ⟨body, operation, hasBody, member, leads⟩ unseen
    rcases bodies hasBody with ⟨rfl, rfl⟩ | ⟨rfl, rfl⟩ | ⟨rfl, rfl⟩
    · cases member
    all_goals
      cases mem_singleton.mp member
      cases leads
      exact absurd ⟨_, rfl, mem_singleton_self _⟩ unseen

/-- A function with a contract is accepted although it calls one that loops. -/
theorem accepted_function_calls_loop :
    let spin : TypedDecl := .function ⟨1⟩ ⟨"spin"⟩ [] [] .unit
      (.whileStmt (.boolConstant true) .skip) []
    let body : TStmt := .returnStmt (.funcall ⟨1⟩ ⟨⟨"Example"⟩, ⟨"spin"⟩, ⟨"spin"⟩⟩ [] .unit .empty)
    let caller : TypedDecl := .function ⟨2⟩ ⟨"wait"⟩ [] [] .unit body
      [.liquid "Ensures" "result == 0"]
    let source : TypedModule := ⟨⟨"Example"⟩, [spin, caller]⟩
    totality source = none ∧ isContracted caller ∧ checkDecl (gateTables source) caller = none ∧
      ¬ Total [source] (.decl ⟨2⟩) := by
  intro _ body _ source
  refine ⟨rfl, rfl, rfl, ?_⟩
  intro total
  have hasBody : HasBody [source] (.decl ⟨2⟩) body :=
    .function mem_cons_self (mem_cons_of_mem _ mem_cons_self)
  have loops : HasBody [source] (.decl ⟨1⟩) (.whileStmt (.boolConstant true) .skip) :=
    .function mem_cons_self mem_cons_self
  have call : Calls [source] (.decl ⟨2⟩) (.decl ⟨1⟩) :=
    ⟨body, .call ⟨1⟩, hasBody, mem_cons_self, .call ⟨1⟩⟩
  exact absurd ((total _ (.single call)).1.2 _ loops).1 (by decide)

end AustralVM.Liquid
