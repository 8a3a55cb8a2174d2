import AustralVM.CpsIr
import AustralVM.StructuredRuns

/-!
# Running CPS code

What the instructions do that the reader emits for expressions and statements:
every value is a word, variables are words, and memory, allocation and calls are
the business of a host.  A conjunction or disjunction has no instruction, so it
does not run, and a negation complements every bit.
-/

namespace AustralVM

abbrev Word := BitVec 64

structure CpsMemory (ω : Type) where
  load : Word → ω → Word
  store : Word → Word → ω → ω
  alloc : Word → ω → Word × ω
  /-- The address and size of a constant, in the heap. -/
  span : List UInt8 → ω → Word × ω

/-- The memory and the functions that code runs with. -/
structure CpsHost (ω : Type) extends CpsMemory ω where
  call : String → List Word → ω → Option (Word × ω)

structure CpsState (ω : Type) where
  vars : String → Word
  world : ω

namespace CpsState

variable {ω : Type}

def set (state : CpsState ω) (name : String) (value : Word) : CpsState ω :=
  { state with vars := Function.update state.vars name value }

@[simp]
theorem vars_set_self (state : CpsState ω) (name : String) (value : Word) :
    (state.set name value).vars name = value := by
  simp [set]

theorem vars_set_of_ne (state : CpsState ω) (ne : other ≠ name) (value : Word) :
    (state.set name value).vars other = state.vars other := by
  simp [set, ne]

end CpsState

/-- A host without functions, on a memory of zeros. -/
def CpsHost.bare : CpsHost Unit :=
  ⟨⟨fun _ _ => 0, fun _ _ _ => (), fun _ _ => (0, ()), fun _ _ => (0, ())⟩, fun _ _ _ => none⟩

/-- The state with some variables, and the others at zero. -/
def CpsState.ofList (vars : List (String × Word)) : CpsState Unit :=
  ⟨fun name => (vars.lookup name).getD 0, ()⟩

def wordOfBool (value : Bool) : Word := if value then 1 else 0

def CpsBinop.compute : CpsBinop → Word → Word → Option Word
  | .cmpLt, lhs, rhs => some (wordOfBool (lhs.slt rhs))
  | .cmpGt, lhs, rhs => some (wordOfBool (rhs.slt lhs))
  | .cmpLte, lhs, rhs => some (wordOfBool (lhs.sle rhs))
  | .cmpGte, lhs, rhs => some (wordOfBool (rhs.sle lhs))
  | .cmpEq, lhs, rhs => some (wordOfBool (lhs == rhs))
  | .cmpNeq, lhs, rhs => some (wordOfBool (lhs != rhs))
  | .and, _, _ | .or, _, _ => none
  | .add, lhs, rhs => some (lhs + rhs)
  | .sub, lhs, rhs => some (lhs - rhs)
  | .mul, lhs, rhs => some (lhs * rhs)

def CpsMemory.storeFields {ω : Type} (memory : CpsMemory ω) (pointer : Word) : List Word → ω → ω
  | [], world => world
  | value :: values, world =>
    memory.storeFields (pointer + 8) values (memory.store pointer value world)

section Semantics

variable {ω : Type} (host : CpsHost ω)

/-- A call that is returned directly: a union's constructor is no case. -/
def applyTailCall (name : String) (args : List Word) (world : ω) : Option (Word × ω) :=
  if name = "__slot_get" ∨ name = "__ptr_slot_get" then
    match args with
    | pointer :: offset :: _ => some (host.load (pointer + offset) world, world)
    | _ => none
  else if name = "__record_new" then
    match args with
    | size :: fields =>
      let (pointer, world) := host.alloc size world
      some (pointer, host.storeFields pointer fields world)
    | _ => none
  else host.call name args world

def applyCall (name : String) (args : List Word) (world : ω) : Option (Word × ω) :=
  if name = "__union_new" then
    match args with
    | size :: tag :: fields =>
      let (pointer, world) := host.alloc size world
      some (pointer, host.storeFields pointer (tag :: fields) world)
    | _ => none
  else applyTailCall host name args world

mutual

def evalExpr (vars : String → Word) : CpsExpr → ω → Option (Word × ω)
  | .intLit value, world => some (value, world)
  | .boolLit value, world => some (wordOfBool value, world)
  | .floatLit value, world =>
    match value.literal with
    | .ok literal => some (literal, world)
    | .error _ => none
  | .stringLit bytes, world => some (host.span bytes world)
  | .var name, world => some (vars name, world)
  | .app name args, world => do
    let (values, world) ← evalExprs vars args world
    applyCall host name values world
  | .deref pointer, world => do
    let (address, world) ← evalExpr vars pointer world
    some (host.load address world, world)
  | .binary op lhs rhs, world => do
    let (left, world) ← evalExpr vars lhs world
    let (right, world) ← evalExpr vars rhs world
    let result ← op.compute left right
    some (result, world)
  | .not operand, world => do
    let (value, world) ← evalExpr vars operand world
    some (~~~value, world)

def evalExprs (vars : String → Word) : List CpsExpr → ω → Option (List Word × ω)
  | [], world => some ([], world)
  | expr :: exprs, world => do
    let (value, world) ← evalExpr vars expr world
    let (values, world) ← evalExprs vars exprs world
    some (value :: values, world)

end

def evalTail (vars : String → Word) : CpsExpr → ω → Option (Word × ω)
  | .app name args, world => do
    let (values, world) ← evalExprs host vars args world
    applyTailCall host name values world
  | expr, world => evalExpr host vars expr world

/-- The value of an expression in a state, and the state after it. -/
def evalIn (expr : CpsExpr) (state : CpsState ω) : Option (Word × CpsState ω) :=
  (evalExpr host state.vars expr state.world).map fun result =>
    (result.1, { state with world := result.2 })

def testIn (condition : CpsExpr) (state : CpsState ω) : Option (Bool × CpsState ω) :=
  (evalIn host condition state).map fun result => (result.1 != 0, result.2)

abbrev CpsEnding (ω : Type) := Ending (CpsState ω) (Word × ω)

mutual

/-- Run a statement; the rounds of every loop are limited. -/
def exec (limit : Nat) : CpsStmt → CpsState ω → Option (CpsEnding ω)
  | .skip, state => some (.next state)
  | .letStmt name value body, state => do
    let (word, state) ← evalIn host value state
    exec limit body (state.set name word)
  | .assign name value, state => do
    let (word, state) ← evalIn host value state
    some (.next (state.set name word))
  | .store pointer value, state => do
    let (address, state) ← evalIn host pointer state
    let (word, state) ← evalIn host value state
    some (.next { state with world := host.store address word state.world })
  | .ifStmt condition thenBranch elseBranch, state => do
    let (holds, state) ← testIn host condition state
    if holds then exec limit thenBranch state else exec limit elseBranch state
  | .whileStmt condition body, state =>
    iterate (testIn host condition) (exec limit body) limit state
  | .matchStmt condition cases default, state => do
    let (word, state) ← evalIn host condition state
    execCases limit word cases (exec limit default) state
  | .block first second, state => do
    let ending ← exec limit first state
    ending.andThen (exec limit second)
  | .discard value, state => do
    let (_, state) ← evalIn host value state
    some (.next state)
  | .returnStmt value, state => (evalTail host state.vars value state.world).map .stop

/-- Run the first case with the number, or else the default. -/
def execCases (limit : Nat) (word : Word) :
    List (Word × CpsStmt) → (CpsState ω → Option (CpsEnding ω)) →
      CpsState ω → Option (CpsEnding ω)
  | [], default, state => default state
  | (number, body) :: cases, default, state =>
    if word = number then exec limit body state else execCases limit word cases default state

end

end Semantics

end AustralVM
