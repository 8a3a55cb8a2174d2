import AustralVM.FormulaMeaning
import AustralVM.LiquidTerms
import AustralVM.TotalityCheck

/-!
# The goals of a module

`LiquidConstraints`: for every contract a goal about the value that the body returns,
for every call in a body with a contract the goals that the callee's contract, the
range of arithmetic and the fold rule ask for, and for every postcondition an axiom
about the function.  A goal is kept as the contracts and formulas it is made of; how it
is spelled for the prover is left out.
-/

namespace AustralVM.Liquid.Constraints

/-! ## Goals -/

/-- A part of a goal: the text of a contract, or a formula. -/
inductive Assertion
  | contract (source : String)
  | formula (formula : Formula)

/-- A function symbol and the contract that an axiom states of it. -/
structure TheoryFn where
  name : String
  params : List String
  pre : Option String
  post : String

structure ContractEntry where
  name : String
  kind : ContractKind
  source : String
  params : List String

structure Goal where
  name : String
  rule : String
  binders : List String
  assumes : List Assertion
  body : Assertion
  syms : List (String × Nat)

def why3Ident (text : String) : String :=
  let allowed (char : Char) : Bool := char.isAlpha || char.isDigit || char = '_' || char = '\''
  let out := text.toList.map fun char => if allowed char then char else '_'
  match out with
  | [] => "_"
  | first :: _ => String.ofList (if first.isDigit then '_' :: out else out)

/-- FNV-1a in 32 bits, with a newline after each part. -/
def hashKey (parts : List String) : Nat :=
  (parts.flatMap fun part => part.toUTF8.data.toList.map UInt8.toNat ++ [10]).foldl
    (fun hash byte => ((hash ^^^ byte) * 16777619) % 2 ^ 32) 2166136261

def goalName (decl : DeclId) (name kind : String) : String :=
  let digits := Nat.toDigits 16 (hashKey [toString decl.index, name, kind])
  "g_" ++ String.ofList (List.replicate (8 - digits.length) '0' ++ digits)

/-! ## Contracts of declarations -/

def liquidPragmas (pragmas : List Pragma) : List (ContractKind × String) :=
  pragmas.filterMap fun pragma =>
    match pragma with
    | .liquid kind source => (ContractKind.ofString kind).map (·, source)
    | _ => none

def paramNames (params : List ValueParameter) : List String :=
  params.map fun param => why3Ident param.name.string

def firstContract (kind : ContractKind) (pragmas : List Pragma) : Option String :=
  (liquidPragmas pragmas).lookup kind

def readContract (kind : ContractKind) (source : String) : Option Formula :=
  match parseContract (fun _ => false) kind source with
  | .ok contract => contract.formula
  | .error _ => none

/-! ## The returned value -/

/-- The expression that a body returns.  Of two statements the second counts, if it
has one. -/
def returnExpr : TStmt → Option TExpr
  | .returnStmt value => some value
  | .block first second => (returnExpr second).or (returnExpr first)
  | .letStmt _ _ _ body => returnExpr body
  | _ => none

def headOf : TStmt → Option (String × TExpr)
  | .initialAssign name value => some (name.original.string, value)
  | .block first _ => headOf first
  | _ => none

def bindHead (env : TempEnv) (body : TStmt) : TempEnv :=
  match headOf body with
  | some binding => binding :: env
  | none => env

/-- Inside a read borrow its name stands for what is borrowed. -/
def bindBorrow (env : TempEnv) (original rename : Identifier) (origType : Ty) :
    BorrowStmtKind → TempEnv
  | .read => (rename.string, .paramVar original origType) :: env
  | .write | .reborrow => env

/-- The bindings in scope where the body returns. -/
def spineEnv (env : TempEnv) : TStmt → TempEnv
  | .block first second => spineEnv (spineEnv env first) second
  | .letTmp name _ value => (name.string, value) :: env
  | .initialAssign name value => (name.original.string, value) :: env
  | .letStmt _ _ _ body => spineEnv (bindHead env body) body
  | .borrow original rename _ origType _ body mode =>
    spineEnv (bindBorrow env original rename origType mode) body
  | _ => env

/-- The equation for the result, if the returned expression has a term over the
parameters. -/
def linkedTerm (params : List String) (temps : TempEnv) (body : TStmt) : Option Term :=
  match returnExpr body with
  | none => none
  | some value =>
    match termOf temps value with
    | none => none
    | some (term, vars) => if vars.all (· ∈ params) then some term else none

def makeReturnGoal (decl : DeclId) (name : String) (kind : ContractKind) (ensures : String)
    (req : Option String) (params : List String) (body : Option TStmt) (temps : TempEnv) :
    Option Goal :=
  let goal (kindTag rule : String) : Goal :=
    let linked := body.bind (linkedTerm params temps)
    { name := goalName decl name kindTag
      rule := rule
      binders := params ++ ["result"]
      assumes := req.toList.map .contract ++
        linked.toList.map fun term => .formula (.rel .eq (.var "result" none) term)
      body := .contract ensures
      syms := [] }
  match kind with
  | .ensures => some (goal "ensures" "§5.10 RETURN (assumes §5.6 APPLICATION)")
  | .invariant => some (goal "invariant" "§5.9 FOLD (result half; the step obligation needs §4.4)")
  | _ => none

/-! ## Call sites -/

structure Callee where
  name : String
  params : List String
  requires : Option String

/-- A call and the bindings in scope where it is made. -/
structure CallSite where
  decl : Option DeclId
  name : QIdent
  args : List TExpr
  env : TempEnv
  rt : Ty

mutual

@[grind =] def callsInExpr (env : TempEnv) (acc : List CallSite) : TExpr → List CallSite
  | .funcall id name args rt _ => callsInExprs env (⟨some id, name, args, env, rt⟩ :: acc) args
  | .methodCall _ name _ args rt _ => callsInExprs env (⟨none, name, args, env, rt⟩ :: acc) args
  | .fptrCall _ args _ | .varMethodCall _ _ _ _ args _ _ _ | .embed _ _ args =>
    callsInExprs env acc args
  | .cast expr _ | .negation expr | .deref expr | .slotAccessor expr _ _
  | .pointerSlotAccessor expr _ _ => callsInExpr env acc expr
  | .comparison _ lhs rhs | .conjunction lhs rhs | .disjunction lhs rhs
  | .arrayIndex lhs rhs _ | .spanIndex lhs rhs _ => callsInExpr env (callsInExpr env acc lhs) rhs
  | .ifExpression condition consequent alternative =>
    callsInExpr env (callsInExpr env (callsInExpr env acc condition) consequent) alternative
  | .recordConstructor _ args | .unionConstructor _ _ args => callsInFields env acc args
  | _ => acc

@[grind =] def callsInExprs (env : TempEnv) (acc : List CallSite) : List TExpr → List CallSite
  | [] => acc
  | expr :: exprs => callsInExprs env (callsInExpr env acc expr) exprs

@[grind =] def callsInFields (env : TempEnv) (acc : List CallSite) :
    List (Identifier × TExpr) → List CallSite
  | [] => acc
  | (_, expr) :: fields => callsInFields env (callsInExpr env acc expr) fields

end

mutual

/-- The calls of a statement, and the bindings for the statements after it.  Those of
a borrow and of a destructuring are not taken back at their end. -/
@[grind =] def callsInStmt (env : TempEnv) (acc : List CallSite) : TStmt → List CallSite × TempEnv
  | .skip => (acc, env)
  | .letStmt _ _ _ body => ((callsInStmt (bindHead env body) acc body).1, env)
  | .letTmp name _ value => (callsInExpr env acc value, (name.string, value) :: env)
  | .assignTmp _ value | .assignVar _ value | .initialAssign _ value | .returnStmt value
  | .discarding value => (callsInExpr env acc value, env)
  | .destructure _ _ value body => callsInStmt env (callsInExpr env acc value) body
  | .assign lvalue value => (callsInExpr env (callsInExpr env acc lvalue) value, env)
  | .ifStmt condition consequent alternative =>
    let inConsequent := (callsInStmt env (callsInExpr env acc condition) consequent).1
    ((callsInStmt env inConsequent alternative).1, env)
  | .caseStmt scrutinee whens _ => (callsInWhens env (callsInExpr env acc scrutinee) whens, env)
  | .whileStmt condition body | .forStmt _ _ condition body =>
    ((callsInStmt env (callsInExpr env acc condition) body).1, env)
  | .borrow original rename _ origType _ body mode =>
    callsInStmt (bindBorrow env original rename origType mode) acc body
  | .block first second =>
    let (inFirst, inner) := callsInStmt env acc first
    callsInStmt inner inFirst second

@[grind =] def callsInWhens (env : TempEnv) (acc : List CallSite) :
    List (TypedWhen TStmt) → List CallSite
  | [] => acc
  | ⟨_, _, body⟩ :: whens => callsInWhens env (callsInStmt env acc body).1 whens

end

mutual

/-- The symbols of a term with their arities, the first use of each. -/
def symbolsOfTerm (seen : List (String × Nat)) : Term → List (String × Nat)
  | .int _ | .real _ | .bool _ | .var _ _ => seen
  | .add lhs rhs | .sub lhs rhs | .mul lhs rhs => symbolsOfTerm (symbolsOfTerm seen lhs) rhs
  | .neg operand => symbolsOfTerm seen operand
  | .ite condition consequent alternative =>
    symbolsOfTerm (symbolsOfTerm (symbolsOfTerm seen condition) consequent) alternative
  | .call name args =>
    symbolsOfTerms (if seen.any (·.1 = name) then seen else seen ++ [(name, args.length)]) args

def symbolsOfTerms (seen : List (String × Nat)) : List Term → List (String × Nat)
  | [] => seen
  | term :: terms => symbolsOfTerms (symbolsOfTerm seen term) terms

end

def symbolsOf (seen : List (String × Nat)) : Formula → List (String × Nat)
  | .true | .false => seen
  | .rel _ lhs rhs => symbolsOfTerm (symbolsOfTerm seen lhs) rhs
  | .not operand => symbolsOf seen operand
  | .and lhs rhs | .or lhs rhs | .implies lhs rhs => symbolsOf (symbolsOf seen lhs) rhs
  | .ty term _ => symbolsOfTerm seen term

def symbolsOfFormula (formula : Formula) : List (String × Nat) := symbolsOf [] formula

/-- The callee's precondition over the actual arguments.  There is no goal if it
cannot be stated over the parameters of the caller. -/
def callsiteGoal (caller : String) (callerParams : List String) (callerReq : Option String)
    (decl : DeclId) (index : Nat) (temps : TempEnv) (callee : Callee) (actuals : List TExpr) :
    Option Goal :=
  if actuals.length ≠ callee.params.length then none
  else do
    let source ← callee.requires
    let rendered ← actuals.mapM (termOf temps)
    let formula ← readContract .requires source
    let substituted := substFormula (callee.params.zip (rendered.map Prod.fst)) formula
    if (freeVars substituted).any (· ∉ callerParams) then none
    else
      some
        { name := goalName decl (caller ++ "_calls_" ++ callee.name ++ "_" ++ toString index)
            "requires"
          rule := "§5.6 APPLICATION (the caller proves the callee's Requires)"
          binders := callerParams
          assumes := callerReq.toList.map .contract
          body := .formula substituted
          syms := symbolsOfFormula substituted }

/-! ## Ranges of machine integers -/

/-- The values of an integer type.  The width of sizes and indices is the machine's. -/
def intBoundsOfTy : Ty → Option (Int × Int)
  | .integer signedness width =>
    let bits : Option Nat :=
      match width with
      | .width8 => some 8
      | .width16 => some 16
      | .width32 => some 32
      | .width64 => some 64
      | .widthByteSize | .widthIndex => none
    bits.map fun bits =>
      match signedness with
      | .unsigned => (0, 2 ^ bits - 1)
      | .signed => (-2 ^ (bits - 1), 2 ^ (bits - 1) - 1)
  | _ => none

def withinBounds (bounds : Int × Int) (term : Term) : Formula :=
  .and (.rel .le (.int bounds.1) term) (.rel .ge (.int bounds.2) term)

/-- What the types of the parameters say of them.  The variables of a body that are
not parameters are in no goal's scope, and have no facts. -/
def rangeFacts (params : List ValueParameter) (scope : List String) : List Formula :=
  let typed := params.foldl (fun found param =>
    if found.any (·.1 = param.name.string) then found
    else (param.name.string, param.ty) :: found) []
  typed.filterMap fun (name, ty) =>
    if name ∈ scope then (intBoundsOfTy ty).map fun bounds => withinBounds bounds (.var name (some .int))
    else none

def conjoin : List Formula → Formula
  | [] => .true
  | formula :: rest => rest.foldl .and formula

/-- The caller's precondition and the facts of its types. -/
def combineAssumes (req : Option String) (facts : List Formula) : List Assertion :=
  req.toList.map .contract ++ (if facts.isEmpty then [] else [.formula (conjoin facts)])

/-- What a caller brings to the goals of its calls. -/
structure Caller where
  name : String
  params : List String
  req : Option String
  facts : List Formula
  decl : DeclId

/-- The result of an arithmetic operation is in the range of its type. -/
def rangeGoal (caller : Caller) (index : Nat) (site : CallSite) : Option Goal := do
  let bounds ← intBoundsOfTy site.rt
  let (term, vars) ← arithmeticTerm site.name (site.args.map (termOf site.env))
  if vars.any (· ∉ caller.params) then none
  else
    let body := withinBounds bounds term
    some
      { name := goalName caller.decl
          (caller.name ++ "_" ++ site.name.original.string ++ "_" ++ toString index) "range"
        rule := "§6 RANGE (the result stays inside its machine type's range)"
        binders := caller.params
        assumes := combineAssumes caller.req caller.facts
        body := .formula body
        syms := symbolsOfFormula body }

/-! ## Folds -/

/-- The declaration that is marked as the fold, its parameters and its invariant. -/
structure FoldCombinator where
  id : DeclId
  params : List String
  invariant : Option String

def findFoldCombinator (decls : List TypedDecl) : Option FoldCombinator :=
  decls.findSome? fun decl =>
    match decl with
    | .function id _ _ params _ _ pragmas =>
      if (liquidPragmas pragmas).any (·.1 = .fold) then
        some ⟨id, paramNames params, firstContract .invariant pragmas⟩
      else none
    | _ => none

inductive StepActual
  | decl (id : DeclId)
  | param (name : String)
  | none

/-- `step_actual`, to a depth of bound names. -/
def stepActualAt (env : TempEnv) : Nat → TExpr → StepActual
  | _, .funVar id _ _ => .decl id
  | depth, .cast expr _ => stepActualAt env depth expr
  | depth + 1, .localVar name _ | depth + 1, .temporary name _ =>
    match env.lookup name.string with
    | some binding => stepActualAt env depth binding
    | Option.none => .none
  | _, .paramVar name _ => .param name.string
  | _, _ => .none

def stepActual (env : TempEnv) (expr : TExpr) : StepActual := stepActualAt env env.length expr

/-- The parameter that a call passes as the step of a fold. -/
def foldStepParam (fold? : Option FoldCombinator) (site : CallSite) : Option String :=
  match fold? with
  | some ⟨id, params, some _⟩ =>
    if params.length = 3 ∧ site.decl = some id then
      match site.args with
      | [step, _, _] =>
        match stepActual site.env step with
        | .param name => some name
        | .decl _ | .none => none
      | _ => none
    else none
  | _ => none

def calleeParamIndex (decls : List TypedDecl) (callee : DeclId) (name : String) : Option Nat :=
  decls.findSome? fun decl =>
    match decl with
    | .function id _ _ params _ _ _ => if id = callee then (paramNames params).idxOf? name else none
    | _ => none

/-- For each function the parameters through which it owes a step. -/
abbrev Pending := List (DeclId × List String)

def Pending.add (pending : Pending) (id : DeclId) (name : String) : Pending :=
  match pending.lookup id with
  | some names =>
    if name ∈ names then pending
    else (id, name :: names) :: pending.filter (·.1 ≠ id)
  | none => (id, [name]) :: pending

def pendingSeeds (fold? : Option FoldCombinator) (decls : List TypedDecl) : Pending :=
  decls.foldl (fun pending decl =>
    match decl with
    | .function id _ _ _ _ body pragmas =>
      if pragmas.any isContract then
        (callsInStmt [] [] body).1.foldl (fun pending site =>
          match foldStepParam fold? site with
          | some name => pending.add id name
          | none => pending) pending
      else pending
    | _ => pending) []

/-- The parameters of a caller that it passes for pending parameters of a callee. -/
def pendingActuals (decls : List TypedDecl) (pending : Pending) (site : CallSite) :
    List (String × StepActual) :=
  match site.decl with
  | none => []
  | some callee =>
    ((pending.lookup callee).getD []).filterMap fun name => do
      let index ← calleeParamIndex decls callee name
      let actual ← site.args[index]?
      some (name, stepActual site.env actual)

/-- One round over the functions that owe nothing yet. -/
def pendingRound (decls : List TypedDecl) (pending : Pending) : Pending :=
  decls.foldl (fun pending decl =>
    match decl with
    | .function id _ _ _ _ body pragmas =>
      if pragmas.any isContract && (pending.lookup id).isNone then
        (callsInStmt [] [] body).1.foldl (fun pending site =>
          (pendingActuals decls pending site).foldl (fun pending (_, actual) =>
            match actual with
            | .param name => pending.add id name
            | .decl _ | .none => pending) pending) pending
      else pending
    | _ => pending) pending

/-- Every round that changes anything gives one more function something to owe. -/
def pendingSteps (fold? : Option FoldCombinator) (decls : List TypedDecl) : Pending :=
  (List.range decls.length).foldl (fun pending _ => pendingRound decls pending)
    (pendingSeeds fold? decls)

def inScope (allowed : List String) (formula : Formula) : Bool :=
  (freeVars formula).all (· ∈ allowed)

def stepPremiseGoal (caller : Caller) (name step : String) (invariant : Formula)
    (theory : List TheoryFn) : Option Goal :=
  match theory.find? (·.name = step) with
  | some fn =>
    let acc : Term := .var "__acc" none
    let before := substFormula [("result", acc)] invariant
    let after := substFormula [("result", .call step [.var "__elem" none, acc])] invariant
    let allowed := caller.params ++ ["__elem", "__acc"]
    if fn.params.length = 2 ∧ inScope allowed before ∧ inScope allowed after then
      some
        { name := goalName caller.decl name "foldstep"
          rule := "§5.9 FOLD (step half)"
          binders := allowed
          assumes := combineAssumes caller.req caller.facts
          body := .formula (.implies before after)
          syms := symbolsOfFormula before ++ symbolsOfFormula after }
    else none
  | none => none

/-- The premises of a fold: its seed has the invariant, and its step keeps it. -/
def foldGoals (caller : Caller) (index : Nat) (fold : FoldCombinator)
    (nameOf : DeclId → Option String) (theory : List TheoryFn) (invariant : Option Formula)
    (site : CallSite) : List Goal :=
  match invariant, site.args with
  | some invariant, [step, seed, _] =>
    if fold.params.length = 3 ∧ site.decl = some fold.id then
      let initGoals :=
        match termOf site.env seed with
        | some (term, _) =>
          let body := substFormula [("result", term)] invariant
          if inScope caller.params body then
            [{ name := goalName caller.decl (caller.name ++ "_fold_" ++ toString index) "fold"
               rule := "§5.9 FOLD (init half)"
               binders := caller.params
               assumes := combineAssumes caller.req caller.facts
               body := .formula body
               syms := symbolsOfFormula body }]
          else []
        | none => []
      let stepGoals :=
        match stepActual site.env step with
        | .decl id =>
          ((nameOf id).bind fun stepName =>
            stepPremiseGoal caller (caller.name ++ "_fold_step_" ++ toString index) stepName
              invariant theory).toList
        | .param _ | .none => []
      initGoals ++ stepGoals
    else []
  | _, _ => []

/-! ## The goals of a module -/

def contractEntries (decls : List TypedDecl) : List ContractEntry :=
  decls.flatMap fun decl =>
    match decl with
    | .function _ name _ params _ _ pragmas =>
      (liquidPragmas pragmas).map fun (kind, source) =>
        ⟨name.string, kind, source, paramNames params⟩
    | _ => []

def requiresByName (decls : List TypedDecl) : List (String × String) :=
  decls.flatMap fun decl =>
    match decl with
    | .function _ name _ _ _ _ pragmas =>
      (liquidPragmas pragmas).filterMap fun (kind, source) =>
        if kind = .requires then some (name.string, source) else none
    | _ => []

/-- Every postcondition is an axiom about the function, under its first precondition. -/
def theoryOf (contracts : List ContractEntry) : List TheoryFn :=
  contracts.filterMap fun entry =>
    if entry.kind = .ensures then
      let pre := contracts.find? fun other => other.name = entry.name && other.kind = .requires
      some ⟨entry.name, entry.params, pre.map (·.source), entry.source⟩
    else none

/-- The latest declaration of an identifier is the one that is found. -/
def calleeOf (decls : List TypedDecl) (callee : DeclId) : Option Callee :=
  decls.reverse.findSome? fun decl =>
    match decl with
    | .function id name _ params _ _ pragmas =>
      if id = callee ∧ pragmas.any isContract then
        some ⟨name.string, paramNames params, firstContract .requires pragmas⟩
      else none
    | _ => none

def nameById (decls : List TypedDecl) (wanted : DeclId) : Option String :=
  decls.reverse.findSome? fun decl =>
    match decl with
    | .function id name _ _ _ _ _ => if id = wanted then some name.string else none
    | _ => none

/-- What the goals of every call of a module are made with. -/
structure ModuleTables where
  decls : List TypedDecl
  theory : List TheoryFn
  fold? : Option FoldCombinator
  foldInv : Option Formula
  pending : Pending

def moduleTables (decls : List TypedDecl) : ModuleTables :=
  let fold? := findFoldCombinator decls
  { decls := decls
    theory := theoryOf (contractEntries decls)
    fold? := fold?
    foldInv := (fold?.bind (·.invariant)).bind (readContract .invariant)
    pending := pendingSteps fold? decls }

/-- The steps that a callee has left to its callers. -/
def pendingGoals (tables : ModuleTables) (caller : Caller) (index : Nat) (site : CallSite) :
    List Goal :=
  match tables.foldInv with
  | none => []
  | some invariant =>
    (pendingActuals tables.decls tables.pending site).filterMap fun (name, actual) =>
      match actual with
      | .decl id =>
        (nameById tables.decls id).bind fun step =>
          stepPremiseGoal caller
            (caller.name ++ "_steparg_" ++ toString index ++ "_" ++ name) step invariant
            tables.theory
      | .param _ | .none => none

def goalsOfCall (tables : ModuleTables) (caller : Caller) (index : Nat) (site : CallSite) :
    List Goal :=
  let fromCallee := (site.decl.bind (calleeOf tables.decls)).bind fun callee =>
    callsiteGoal caller.name caller.params caller.req caller.decl index site.env callee site.args
  let fold := tables.fold?.toList.flatMap fun fold =>
    foldGoals caller index fold (nameById tables.decls) tables.theory tables.foldInv site
  fromCallee.toList ++ (rangeGoal caller index site).toList ++ fold ++
    pendingGoals tables caller index site

def goalsOfCalls (tables : ModuleTables) : TypedDecl → List Goal
  | .function id name _ params _ body pragmas =>
    if pragmas.any isContract then
      let names := paramNames params
      let caller : Caller :=
        ⟨name.string, names, firstContract .requires pragmas, rangeFacts params names, id⟩
      ((callsInStmt [] [] body).1.mapIdx (goalsOfCall tables caller)).flatten
    else []
  | _ => []

/-- The function that a contract is taken to be of: the first of its name. -/
def declOfEntry (decls : List TypedDecl) (entry : ContractEntry) : Option (DeclId × TStmt) :=
  decls.findSome? fun decl =>
    match decl with
    | .function id name _ _ _ body pragmas =>
      if name.string = entry.name && pragmas.any isContract then some (id, body) else none
    | _ => none

def returnGoal (decls : List TypedDecl) (entry : ContractEntry) : Option Goal :=
  let decl := declOfEntry decls entry
  let body := decl.map Prod.snd
  makeReturnGoal ((decl.map Prod.fst).getD ⟨0⟩) entry.name entry.kind entry.source
    ((requiresByName decls).lookup entry.name) entry.params body
    ((body.map (spineEnv [])).getD [])

/-- What is emitted for a module.  The predicates of the inferred qualifiers, which no
goal mentions, are left out. -/
structure ConstraintSet where
  moduleName : String
  contracts : List ContractEntry
  goals : List Goal
  theory : List TheoryFn

def generate (source : TypedModule) : Option ConstraintSet :=
  let contracts := contractEntries source.decls
  if contracts.isEmpty then none
  else
    let tables := moduleTables source.decls
    some
      { moduleName := source.name.string
        contracts := contracts
        goals := contracts.filterMap (returnGoal source.decls) ++
          source.decls.flatMap (goalsOfCalls tables)
        theory := tables.theory }

end AustralVM.Liquid.Constraints
