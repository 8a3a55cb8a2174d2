import AustralVM.CpsRoundTrip
import AustralVM.CpsSemantics

/-!
# Running emitted code

The instructions that the reader emits have a meaning of their own.  Running the
code that is read for a statement is running the statement, with each call going
to the target that the reader has chosen for its name.
-/

namespace AustralVM

open AustralVM.Comp Option

/-- The memory and the functions that emitted code runs with. -/
structure CodeHost (ω : Type) extends CpsMemory ω where
  call : CallTarget → List Word → ω → Option (Word × ω)

/-- The host of the statements of a binary with some functions. -/
def CodeHost.named {ω : Type} (host : CodeHost ω) (nameMap : List String) : CpsHost ω :=
  ⟨host.toCpsMemory, fun name => host.call (callTarget nameMap name)⟩

def IntCC.compute : IntCC → Word → Word → Bool
  | .signedLessThan, lhs, rhs => lhs.slt rhs
  | .signedGreaterThan, lhs, rhs => rhs.slt lhs
  | .signedLessThanOrEqual, lhs, rhs => lhs.sle rhs
  | .signedGreaterThanOrEqual, lhs, rhs => rhs.sle lhs
  | .equal, lhs, rhs => lhs == rhs
  | .notEqual, lhs, rhs => lhs != rhs

section Semantics

variable {ω : Type} (host : CodeHost ω)

mutual

def evalCode (vars : String → Word) : Code → ω → Option (Word × ω)
  | .iconst value, world => some (value, world)
  | .useVar name, world => some (vars name, world)
  | .call target args, world => do
    let (values, world) ← evalCodes vars args world
    host.call target values world
  | .slotGet args, world => do
    let (values, world) ← evalCodes vars args world
    match values with
    | pointer :: offset :: _ => some (host.load (pointer + offset) world, world)
    | _ => none
  | .recordNew args, world => do
    let (values, world) ← evalCodes vars args world
    match values with
    | size :: fields =>
      let (pointer, world) := host.alloc size world
      some (pointer, host.storeFields pointer fields world)
    | _ => none
  | .unionNew args, world => do
    let (values, world) ← evalCodes vars args world
    match values with
    | size :: tag :: fields =>
      let (pointer, world) := host.alloc size world
      some (pointer, host.storeFields pointer (tag :: fields) world)
    | _ => none
  | .iadd lhs rhs, world => do
    let (left, world) ← evalCode vars lhs world
    let (right, world) ← evalCode vars rhs world
    some (left + right, world)
  | .isub lhs rhs, world => do
    let (left, world) ← evalCode vars lhs world
    let (right, world) ← evalCode vars rhs world
    some (left - right, world)
  | .imul lhs rhs, world => do
    let (left, world) ← evalCode vars lhs world
    let (right, world) ← evalCode vars rhs world
    some (left * right, world)
  | .icmp condition lhs rhs, world => do
    let (left, world) ← evalCode vars lhs world
    let (right, world) ← evalCode vars rhs world
    some (wordOfBool (condition.compute left right), world)
  | .bnot operand, world => do
    let (value, world) ← evalCode vars operand world
    some (~~~value, world)
  | .load pointer, world => do
    let (address, world) ← evalCode vars pointer world
    some (host.load address world, world)
  | .span bytes, world => some (host.span bytes world)
  -- operations without an instruction
  | .logicalAnd _ _, _ | .logicalOr _ _, _ | .logicalNot _, _ | .fconst _, _ => none

def evalCodes (vars : String → Word) : List Code → ω → Option (List Word × ω)
  | [], world => some ([], world)
  | code :: codes, world => do
    let (value, world) ← evalCode vars code world
    let (values, world) ← evalCodes vars codes world
    some (value :: values, world)

end

def evalCodeIn (code : Code) (state : CpsState ω) : Option (Word × CpsState ω) :=
  (evalCode host state.vars code state.world).map fun result =>
    (result.1, { state with world := result.2 })

def testCodeIn (condition : Code) (state : CpsState ω) : Option (Bool × CpsState ω) :=
  (evalCodeIn host condition state).map fun result => (result.1 != 0, result.2)

mutual

def runBlock (limit : Nat) : CodeBlock → CpsState ω → Option (CpsEnding ω)
  | .done, state => some (.next state)
  | .ret value, state => (evalCode host state.vars value state.world).map .stop
  | .defVar name value rest, state => do
    let (word, state) ← evalCodeIn host value state
    runBlock limit rest (state.set name word)
  | .store pointer value rest, state => do
    let (address, state) ← evalCodeIn host pointer state
    let (word, state) ← evalCodeIn host value state
    runBlock limit rest { state with world := host.store address word state.world }
  | .eval value rest, state => do
    let (_, state) ← evalCodeIn host value state
    runBlock limit rest state
  | .branch condition thenBlock elseBlock rest, state => do
    let (holds, state) ← testCodeIn host condition state
    let ending ← if holds then runBlock limit thenBlock state else runBlock limit elseBlock state
    ending.andThen (runBlock limit rest)
  | .loop condition body rest, state => do
    let ending ← iterate (testCodeIn host condition) (runBlock limit body) limit state
    ending.andThen (runBlock limit rest)
  | .switch condition cases default rest, state => do
    let (word, state) ← evalCodeIn host condition state
    let ending ← runCases limit word cases (runBlock limit default) state
    ending.andThen (runBlock limit rest)

def runCases (limit : Nat) (word : Word) :
    CodeCases → (CpsState ω → Option (CpsEnding ω)) → CpsState ω → Option (CpsEnding ω)
  | .nil, default, state => default state
  | .cons number body cases, default, state =>
    if word = number then runBlock limit body state else runCases limit word cases default state

end

/-! ## Code that was read -/

variable {host} {ctx : EmitContext}

variable {code : Code} {expr : CpsExpr}

theorem evalCode_of_emitTailCall (emitted : emitTailCall ctx name args = .ok code)
    (vars : String → Word) (world : ω) :
    evalCode host vars code world = (evalCodes host vars args world).bind fun result =>
      applyTailCall (host.named ctx.nameMap) name result.1 result.2 := by
  obtain ⟨_, _, rest⟩ := bind_eq_ok.mp emitted
  unfold applyTailCall
  split_ifs at rest ⊢ with isSlot isRecord
  · obtain ⟨_, _, equal⟩ := bind_eq_ok.mp rest
    cases equal
    rw [evalCode]
    rfl
  · obtain ⟨_, _, equal⟩ := bind_eq_ok.mp rest
    cases equal
    rw [evalCode]
    rfl
  · cases rest
    rw [evalCode]
    rfl

theorem evalCode_of_emitCall (emitted : emitCall ctx name args = .ok code) (vars : String → Word)
    (world : ω) :
    evalCode host vars code world = (evalCodes host vars args world).bind fun result =>
      applyCall (host.named ctx.nameMap) name result.1 result.2 := by
  by_cases isUnion : name = "__union_new"
  · subst isUnion
    obtain ⟨_, _, rest⟩ := bind_eq_ok.mp emitted
    obtain ⟨_, _, equal⟩ := bind_eq_ok.mp rest
    cases equal
    rw [evalCode]
    rfl
  · rw [emitCall_of_ne isUnion] at emitted
    simp only [applyCall, if_neg isUnion]
    exact evalCode_of_emitTailCall emitted vars world

theorem evalCode_instruction {op : CpsBinop} (notLogical : ¬ (op = .and ∨ op = .or))
    (lhs rhs : Code) (vars : String → Word) (world : ω) :
    evalCode host vars (op.instruction lhs rhs) world =
      (do
        let (left, world) ← evalCode host vars lhs world
        let (right, world) ← evalCode host vars rhs world
        let result ← op.compute left right
        some (result, world)) := by
  cases op with
  | and => exact absurd (.inl rfl) notLogical
  | or => exact absurd (.inr rfl) notLogical
  | _ =>
    rw [CpsBinop.instruction, evalCode]
    rfl

mutual
theorem evalCode_of_readExpr {expr : CpsExpr} {code : Code} (fits : fitsExpr expr)
    (read : readExpr ctx expr = .ok code) (vars : String → Word) (world : ω) :
    evalCode host vars code world = evalExpr (host.named ctx.nameMap) vars expr world := by
  cases expr with
  | intLit | boolLit | stringLit | var =>
    cases read
    rfl
  | floatLit =>
    cases read
    rw [evalCode, evalExpr, OcamlFloat.literal_of_fits fits]
  | app =>
    obtain ⟨_, readArgs, emitted⟩ := bind_eq_ok.mp read
    have argsFit := (Bool.and_eq_true_iff.mp fits).2
    rw [evalCode_of_emitCall emitted, evalExpr, evalCodes_of_readExprs argsFit readArgs]
    rfl
  | deref | not =>
    obtain ⟨_, readOperand, rfl⟩ := map_eq_ok.mp read
    rw [fitsExpr] at fits
    rw [evalCode, evalExpr, evalCode_of_readExpr fits readOperand] <;> rfl
  | binary =>
    obtain ⟨lhsFits, rhsFits⟩ := Bool.and_eq_true_iff.mp fits
    rw [readExpr] at read
    split_ifs at read with logical
    obtain ⟨_, readLeft, rest⟩ := bind_eq_ok.mp read
    obtain ⟨_, readRight, equal⟩ := bind_eq_ok.mp rest
    cases equal
    simp only [evalCode_instruction logical, evalExpr, evalCode_of_readExpr lhsFits readLeft,
      evalCode_of_readExpr rhsFits readRight]
theorem evalCodes_of_readExprs {args : List CpsExpr} {codes : List Code} (fits : fitsExprs args)
    (read : readExprs ctx args = .ok codes) (vars : String → Word) (world : ω) :
    evalCodes host vars codes world = evalExprs (host.named ctx.nameMap) vars args world := by
  cases args with
  | nil =>
    cases read
    rfl
  | cons =>
    obtain ⟨argFits, argsFit⟩ := Bool.and_eq_true_iff.mp fits
    obtain ⟨_, readArg, rest⟩ := bind_eq_ok.mp read
    obtain ⟨_, readArgs, equal⟩ := bind_eq_ok.mp rest
    cases equal
    simp only [evalCodes, evalExprs, evalCode_of_readExpr argFits readArg,
      evalCodes_of_readExprs argsFit readArgs]
end

section

variable (fits : fitsExpr expr)
include fits

theorem evalCode_of_readTail (read : readTail ctx expr = .ok code) (vars : String → Word)
    (world : ω) :
    evalCode host vars code world = evalTail (host.named ctx.nameMap) vars expr world := by
  cases expr with
  | app =>
    obtain ⟨_, readArgs, emitted⟩ := bind_eq_ok.mp read
    have argsFit := (Bool.and_eq_true_iff.mp fits).2
    rw [evalCode_of_emitTailCall emitted, evalTail, evalCodes_of_readExprs argsFit readArgs]
    rfl
  | _ => exact @evalCode_of_readExpr _ host ctx _ _ fits read vars world

theorem evalCodeIn_of_readExpr (read : readExpr ctx expr = .ok code) (state : CpsState ω) :
    evalCodeIn host code state = evalIn (host.named ctx.nameMap) expr state := by
  rw [evalCodeIn, evalIn, evalCode_of_readExpr fits read]

theorem testCodeIn_of_readExpr (read : readExpr ctx expr = .ok code) :
    (testCodeIn host code : CpsState ω → _) = testIn (host.named ctx.nameMap) expr := by
  funext state
  rw [testCodeIn, testIn, evalCodeIn_of_readExpr fits read]

end

/-! ## Blocks -/

variable (host ctx) in
/-- Running what is read for a statement in front of a list is running the
statement, then the list.  The list after a return is not read. -/
def RunsAs (limit : Nat) (stmt : CpsStmt) : Prop :=
  ∀ (rest : CpsBlock CpsExpr) (runRest : CpsState ω → Option (CpsEnding ω)),
    (∀ block, readBlock ctx rest = .ok block → runBlock host limit block = runRest) →
    ∀ block, readBlock ctx (flatten stmt rest) = .ok block → ∀ state,
      runBlock host limit block state =
        (exec (host.named ctx.nameMap) limit stmt state).bind fun ending => ending.andThen runRest

theorem RunsAs.nested (runs : RunsAs host ctx limit stmt)
    (read : readBlock ctx (flatten stmt .done) = .ok block) :
    runBlock host limit block = exec (host.named ctx.nameMap) limit stmt := by
  funext state
  rw [runs .done (fun state => some (.next state)) ?_ block read state, Ending.bind_andThen_next]
  intro _ readDone
  cases readDone
  funext state
  rw [runBlock]

mutual
theorem runsAs (limit : Nat) {stmt : CpsStmt} (fits : fitsStmt stmt) :
    RunsAs host ctx limit stmt := by
  cases stmt with
    (intro rest runRest restRuns block read state
     simp only [fitsStmt, Bool.and_eq_true] at fits)
  | skip =>
    rw [restRuns block read]
    rfl
  | letStmt =>
    obtain ⟨_, readValue, others⟩ := bind_eq_ok.mp read
    obtain ⟨_, readBody, equal⟩ := bind_eq_ok.mp others
    cases equal
    simp only [runBlock, exec, evalCodeIn_of_readExpr fits.1.2 readValue,
      runsAs limit fits.2 rest runRest restRuns _ readBody, bind_eq_bind, bind_assoc]
  | assign =>
    obtain ⟨_, readValue, others⟩ := bind_eq_ok.mp read
    obtain ⟨restBlock, readRest, equal⟩ := bind_eq_ok.mp others
    cases equal
    simp only [runBlock, exec, evalCodeIn_of_readExpr fits.2 readValue,
      restRuns restBlock readRest, bind_eq_bind, bind_assoc]
    rfl
  | store =>
    obtain ⟨_, readPointer, others⟩ := bind_eq_ok.mp read
    obtain ⟨_, readValue, others⟩ := bind_eq_ok.mp others
    obtain ⟨restBlock, readRest, equal⟩ := bind_eq_ok.mp others
    cases equal
    simp only [runBlock, exec, evalCodeIn_of_readExpr fits.1 readPointer,
      evalCodeIn_of_readExpr fits.2 readValue, restRuns restBlock readRest, bind_eq_bind,
      bind_assoc]
    rfl
  | ifStmt =>
    obtain ⟨_, readCondition, others⟩ := bind_eq_ok.mp read
    obtain ⟨_, readThen, others⟩ := bind_eq_ok.mp others
    obtain ⟨_, readElse, others⟩ := bind_eq_ok.mp others
    obtain ⟨restBlock, readRest, equal⟩ := bind_eq_ok.mp others
    cases equal
    simp only [runBlock, exec, testCodeIn_of_readExpr fits.1.1 readCondition,
      (runsAs limit fits.1.2.1).nested readThen, (runsAs limit fits.2.1).nested readElse,
      restRuns restBlock readRest, bind_eq_bind, bind_assoc]
    congr 1
    funext tested
    cases tested.1 <;> rfl
  | whileStmt =>
    obtain ⟨_, readCondition, others⟩ := bind_eq_ok.mp read
    obtain ⟨_, readBody, others⟩ := bind_eq_ok.mp others
    obtain ⟨restBlock, readRest, equal⟩ := bind_eq_ok.mp others
    cases equal
    simp only [runBlock, exec, testCodeIn_of_readExpr fits.1 readCondition,
      (runsAs limit fits.2.1).nested readBody, restRuns restBlock readRest, bind_eq_bind]
  | matchStmt _ cases =>
    obtain ⟨_, readCondition, others⟩ := bind_eq_ok.mp read
    obtain ⟨_, readCases, others⟩ := bind_eq_ok.mp others
    obtain ⟨_, readDefault, others⟩ := bind_eq_ok.mp others
    obtain ⟨restBlock, readRest, equal⟩ := bind_eq_ok.mp others
    cases equal
    simp only [runBlock, exec, evalCodeIn_of_readExpr fits.1.1.1 readCondition,
      runCases_of_read limit fits.1.2 readCases, (runsAs limit fits.2.1).nested readDefault,
      restRuns restBlock readRest, bind_eq_bind, bind_assoc]
  | block =>
    rw [runsAs limit fits.1 _ _ (fun block readSecond => funext fun state =>
      runsAs limit fits.2 rest runRest restRuns block readSecond state) block read]
    rw [exec, bind_eq_bind, bind_assoc]
    congr 1
    funext ending
    cases ending <;> rfl
  | discard =>
    obtain ⟨_, readValue, others⟩ := bind_eq_ok.mp read
    obtain ⟨restBlock, readRest, equal⟩ := bind_eq_ok.mp others
    cases equal
    simp only [runBlock, exec, evalCodeIn_of_readExpr fits readValue,
      restRuns restBlock readRest, bind_eq_bind, bind_assoc]
    rfl
  | returnStmt value =>
    obtain ⟨_, readValue, equal⟩ := map_eq_ok.mp read
    cases equal
    rw [runBlock, exec, evalCode_of_readTail fits readValue]
    cases evalTail (host.named ctx.nameMap) state.vars value state.world <;> rfl
theorem runCases_of_read (limit : Nat) {cases : List (Word × CpsStmt)} (fits : fitsCases cases)
    {codeCases : CodeCases}
    (read : (flattenCases cases).traverse (readExpr ctx) (readTail ctx) = .ok codeCases)
    (word : Word) (default : CpsState ω → Option (CpsEnding ω)) (state : CpsState ω) :
    runCases host limit word codeCases default state =
      execCases (host.named ctx.nameMap) limit word cases default state := by
  match cases with
  | [] =>
    cases read
    rw [runCases, execCases]
  | (number, body) :: cases =>
    simp only [fitsCases, Bool.and_eq_true] at fits
    obtain ⟨_, readBody, others⟩ := bind_eq_ok.mp read
    obtain ⟨_, readRest, equal⟩ := bind_eq_ok.mp others
    cases equal
    rw [runCases, execCases, (runsAs limit fits.1.1).nested readBody,
      runCases_of_read limit fits.2 readRest]
end

theorem runBlock_readBody (limit : Nat) {function : FunctionDef} (fits : function.fits)
    (read : readBlock ctx function.readBody = .ok block) :
    runBlock host limit block = exec (host.named ctx.nameMap) limit function.body := by
  simp only [FunctionDef.fits, Bool.and_eq_true] at fits
  exact (runsAs limit fits.2.1).nested read

end Semantics

/-! ## Compiled binaries -/

/-- An emitted function runs as a function of a program whose functions have
these names, on every host. -/
def EmittedFunction.RunsAs (nameMap : List String) (function : FunctionDef)
    (emitted : EmittedFunction) : Prop :=
  emitted.name = function.name ∧ emitted.params = function.params ∧
    ∀ (ω : Type) (host : CodeHost ω) (limit : Nat),
      runBlock host limit emitted.body = exec (host.named nameMap) limit function.body

/-- Serializing functions and compiling the binary keeps their meaning: if the
compiler takes the binary, each emitted function runs as its source. -/
theorem compiled_functions_run (cranelift : Cranelift) (lossy : Utf8Lossy)
    (auth : Auth.AuthState) (jit : Jit) (moduleName : Option String) (functions : List FunctionDef)
    (fits : fitsFunctions moduleName functions)
    (bound : ∀ function ∈ functions, function.readBody.bound function.params) :
    ∃ bytes, serializeFunctions moduleName functions = .ok bytes ∧
      ∀ compiled, compileCpsToClif cranelift lossy auth jit bytes = .ok compiled →
        List.Forall₂ (EmittedFunction.RunsAs (functions.map FunctionDef.name)) functions
          compiled.program.functions := by
  obtain ⟨bytes, serialized, table⟩ := yields_readTable lossy auth fits
  refine ⟨bytes, serialized, fun compiled accepted => ?_⟩
  rw [compileCpsToClif, table.run] at accepted
  obtain ⟨_, ⟨⟩, accepted⟩ := bind_eq_ok.mp accepted
  obtain ⟨emitted, emits, linking⟩ := bind_eq_ok.mp accepted
  obtain ⟨_, _, ⟨⟩⟩ := bind_eq_ok.mp linking
  have fitsEach := List.all_eq_true.mp (Bool.and_eq_true_iff.mp fits).2
  have each := (List.forall₂_and_left _ _).mpr
    ⟨fun _ => id, List.forall₂_map_left_iff.mp (mapM_eq_ok.mp emits)⟩
  refine each.imp ?_
  rintro function _ ⟨inFunctions, emit⟩
  rw [emitFunction_header _ (fitsEach function inFunctions) (bound function inFunctions)] at emit
  obtain ⟨_, read, rfl⟩ := map_eq_ok.mp emit
  refine ⟨rfl, rfl, fun ω host limit => ?_⟩
  rw [runBlock_readBody limit (fitsEach function inFunctions) read, List.map_map]
  rfl

theorem compiled_functions_run_at_countedRecord :
    ∃ bytes compiled, serializeFunctions none [countedRecord] = .ok bytes ∧
      compileCpsToClif symbolTable .replacing .initial ⟨[], []⟩ bytes = .ok compiled ∧
      List.Forall₂ (EmittedFunction.RunsAs ["run"]) [countedRecord] compiled.program.functions := by
  obtain ⟨bytes, serialized, runs⟩ := compiled_functions_run symbolTable .replacing .initial ⟨[], []⟩
    none [countedRecord] (by decide +kernel) (by decide +kernel)
  have accepted : (serializeFunctions none [countedRecord]).toOption.all (fun bytes =>
      (compileCpsToClif symbolTable .replacing .initial ⟨[], []⟩ bytes).isOk) = true := by decide +kernel
  rw [serialized] at accepted
  cases compiled : compileCpsToClif symbolTable .replacing .initial ⟨[], []⟩ bytes with
  | error => simp [Except.toOption, compiled, Except.isOk, Except.toBool] at accepted
  | ok result => exact ⟨bytes, result, serialized, compiled, runs result compiled⟩

end AustralVM
