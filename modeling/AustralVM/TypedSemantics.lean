import AustralVM.StoppableActions
import AustralVM.TypedAst

/-!
# What typed programs do

An interpreter for the typed tree.  Variables live in cells of a memory, a borrow
makes a reference to a cell or to a slot in one, and a write goes to a variable or
through a reference that may be written through; every write is noted.  What the
language leaves to the machine or to C (literals, casts, comparisons, indexing,
constants, embedded text, foreign functions) is the host's.
-/

namespace AustralVM.Typed

/-- What is called: a function, a method of an instance, or a method of a typeclass
at a type. -/
inductive Callee
  | function (id : DeclId) (bindings : TypeBindings)
  | method (id : InsMethId) (bindings : TypeBindings)
  | varMethod (typeclassId : DeclId) (name : QIdent) (dispatchTy : Ty) (bindings : TypeBindings)

structure Place where
  cell : Nat
  path : List Identifier
  deriving DecidableEq

def Place.slot (place : Place) (name : Identifier) : Place := ⟨place.cell, place.path ++ [name]⟩

/-- A value.  Records and unions are data, a union with the name of its case; what
only the host can take apart is external. -/
inductive Value
  | uninitialized
  | unit
  | bool (value : Bool)
  | int (value : Int)
  | string (text : String)
  | function (callee : Callee)
  | reference (writable : Bool) (place : Place)
  | data (tag : Option Identifier) (fields : List (Identifier × Value))
  | external (code : Nat)

namespace Value

def slot (name : Identifier) : Value → Option Value
  | .data _ fields => fields.lookup name
  | _ => none

def follow (value : Value) : List Identifier → Option Value
  | [] => some value
  | name :: path =>
    match value.slot name with
    | some part => part.follow path
    | none => none

/-- Fields with another value for the first of a name. -/
def replaceField (name : Identifier) (new : Value) :
    List (Identifier × Value) → List (Identifier × Value)
  | [] => []
  | (other, value) :: fields =>
    if name = other then (other, new) :: fields
    else (other, value) :: replaceField name new fields

def replace (value : Value) : List Identifier → Value → Option Value
  | [], new => some new
  | name :: path, new =>
    match value with
    | .data tag fields => do
      let part ← fields.lookup name
      let changed ← part.replace path new
      return .data tag (replaceField name changed fields)
    | _ => none

end Value

/-- The cells, and the cells that have been written since they were made. -/
structure Memory where
  cells : List Value
  writes : List Nat

inductive Stop
  | stuck
  | limit
  | trap
  deriving DecidableEq, Repr

abbrev Run := Stoppable Memory Stop

open Stoppable

def alloc (value : Value) : Run Nat := do
  let memory ← get
  set { memory with cells := memory.cells ++ [value] }
  pure memory.cells.length

/-- The value at a place.  A variable that has not been given a value has none. -/
def Memory.valueAt (memory : Memory) (place : Place) : Option Value :=
  match memory.cells[place.cell]? >>= (·.follow place.path) with
  | some .uninitialized => none
  | found => found

def load (place : Place) : Run Value := do
  let memory ← get
  ofOption .stuck (memory.valueAt place)

def store (place : Place) (value : Value) : Run Unit := do
  let memory ← get
  let old ← ofOption .stuck memory.cells[place.cell]?
  let new ← ofOption .stuck (old.replace place.path value)
  set ⟨memory.cells.set place.cell new, place.cell :: memory.writes⟩

structure Host where
  constant : QIdent → Run Value
  integer : String → Option Int
  float : String → Value
  cast : Ty → Value → Option Value
  compare : ComparisonOperator → Value → Value → Option Bool
  index : Value → Value → Memory → Option Value
  sizeOf : Ty → Value
  embed : Ty → String → List Value → Run Value
  foreign : Callee → List Value → Run Value

/-- A variable of the source, or a temporary that the compiler made, which no name of
the source can stand for. -/
inductive Variable
  | named (name : String)
  | temporary (name : String)
  deriving DecidableEq, Repr

def Variable.name : Variable → String
  | .named name | .temporary name => name

/-- The cells of the variables, the latest first. -/
abbrev Frame := List (Variable × Nat)

namespace Frame

def cellOf (frame : Frame) (var : Variable) : Run Nat := ofOption .stuck (frame.lookup var)

def read (frame : Frame) (var : Variable) : Run Value := do
  let cell ← frame.cellOf var
  load ⟨cell, []⟩

def write (frame : Frame) (var : Variable) (value : Value) : Run Unit := do
  let cell ← frame.cellOf var
  store ⟨cell, []⟩ value

end Frame

/-! ## Values taken apart -/

def asReference : Value → Run (Bool × Place)
  | .reference writable place => pure (writable, place)
  | _ => stop .stuck

def asBool : Value → Run Bool
  | .bool value => pure value
  | _ => stop .stuck

def asInt : Value → Run Int
  | .int value => pure value
  | _ => stop .stuck

def asFunction : Value → Run Callee
  | .function callee => pure callee
  | _ => stop .stuck

/-- A conversion.  To a read reference it takes the right to write away. -/
def castTo (host : Host) (ty : Ty) (value : Value) : Run Value :=
  match ty, value with
  | .readRef _ _, .reference _ place => pure (.reference false place)
  | ty, value => ofOption .trap (host.cast ty value)

/-! ## Expressions -/

section Expressions

variable (host : Host) (call : Callee → List Value → Run Value)

mutual

def eval (frame : Frame) : TExpr → Run Value
  | .nilConstant => pure .unit
  | .boolConstant value => pure (.bool value)
  | .intConstant text => do
    let value ← ofOption .stuck (host.integer text)
    pure (.int value)
  | .floatConstant text => pure (host.float text)
  | .stringConstant text => pure (.string text)
  | .constVar name _ => host.constant name
  | .paramVar name _ | .localVar name _ => frame.read (.named name.string)
  | .temporary name _ => frame.read (.temporary name.string)
  | .funVar id _ bindings => pure (.function (.function id bindings))
  | .funcall id _ args _ bindings => do
    let values ← evals frame args
    call (.function id bindings) values
  | .methodCall id _ _ args _ bindings => do
    let values ← evals frame args
    call (.method id bindings) values
  | .varMethodCall _ typeclassId _ methodName args dispatchTy _ bindings => do
    let values ← evals frame args
    call (.varMethod typeclassId methodName dispatchTy bindings) values
  | .fptrCall name args _ => do
    let callee ← frame.read (.named name.string) >>= asFunction
    let values ← evals frame args
    call callee values
  | .cast expr ty => do
    let value ← eval frame expr
    castTo host ty value
  | .comparison operator lhs rhs => do
    let first ← eval frame lhs
    let second ← eval frame rhs
    let holds ← ofOption .stuck (host.compare operator first second)
    pure (.bool holds)
  | .conjunction lhs rhs => do
    let first ← eval frame lhs >>= asBool
    if first then eval frame rhs else pure (.bool false)
  | .disjunction lhs rhs => do
    let first ← eval frame lhs >>= asBool
    if first then pure (.bool true) else eval frame rhs
  | .negation expr => do
    let value ← eval frame expr >>= asBool
    pure (.bool !value)
  | .ifExpression condition consequent alternative => do
    let holds ← eval frame condition >>= asBool
    if holds then eval frame consequent else eval frame alternative
  | .recordConstructor _ args => do
    let fields ← evalFields frame args
    pure (.data none fields)
  | .unionConstructor _ caseName args => do
    let fields ← evalFields frame args
    pure (.data (some caseName) fields)
  | .slotAccessor expr slotName _ => do
    let (writable, place) ← eval frame expr >>= asReference
    pure (.reference writable (place.slot slotName))
  | .pointerSlotAccessor expr slotName _ => do
    let (_, outer) ← eval frame expr >>= asReference
    let (writable, place) ← load outer >>= asReference
    pure (.reference writable (place.slot slotName))
  | .arrayIndex expr index _ | .spanIndex expr index _ => do
    let indexed ← eval frame expr
    let position ← eval frame index
    let memory ← get
    ofOption .trap (host.index indexed position memory)
  | .embed ty template args => do
    let values ← evals frame args
    host.embed ty template values
  | .deref expr => do
    let (_, place) ← eval frame expr >>= asReference
    load place
  | .sizeOf ty => pure (host.sizeOf ty)

def evals (frame : Frame) : List TExpr → Run (List Value)
  | [] => pure []
  | expr :: exprs => do
    let value ← eval frame expr
    let values ← evals frame exprs
    pure (value :: values)

def evalFields (frame : Frame) : List (Identifier × TExpr) → Run (List (Identifier × Value))
  | [] => pure []
  | (name, expr) :: fields => do
    let value ← eval frame expr
    let values ← evalFields frame fields
    pure ((name, value) :: values)

end

end Expressions

/-! ## Statements -/

/-- New variables for the slots of a value, under the names of the bindings. -/
def bindSlots (pick : Identifier → Option Value) (frame : Frame) :
    List TypedBinding → Run Frame
  | [] => pure frame
  | binding :: bindings => do
    let value ← ofOption .stuck (pick binding.name)
    let cell ← alloc value
    bindSlots pick ((.named binding.rename.string, cell) :: frame) bindings

/-- The case that a value has, and what an arm binds: its slots, or references to
them if the value is seen through a reference. -/
def scrutinee (kind : CaseRef) (value : Value) :
    Run (Identifier × (Identifier → Option Value)) :=
  match kind with
  | .casePlain =>
    match value with
    | .data (some tag) fields => pure (tag, fun name => fields.lookup name)
    | _ => stop .stuck
  | .caseRef => do
    let (writable, place) ← asReference value
    match ← load place with
    | .data (some tag) fields =>
      pure (tag, fun name =>
        (fields.lookup name).map fun _ => .reference writable (place.slot name))
    | _ => stop .stuck

section Statements

variable (host : Host) (call : Callee → List Value → Run Value) (limit : Nat)

mutual

/-- A statement gives the variables of the rest of its block and, if it returned, the
value. -/
def execStmt (frame : Frame) : TStmt → Run (Frame × Option Value)
  | .skip => pure (frame, none)
  | .letStmt _ name _ body => do
    let cell ← alloc .uninitialized
    let (_, returned) ← execStmt ((.named name.string, cell) :: frame) body
    pure (frame, returned)
  | .destructure _ bindings value body => do
    let whole ← eval host call frame value
    let inner ← bindSlots (fun name => whole.slot name) frame bindings
    let (_, returned) ← execStmt inner body
    pure (frame, returned)
  | .assign lvalue value => do
    let (writable, place) ← eval host call frame lvalue >>= asReference
    let new ← eval host call frame value
    if writable then
      store place new
      pure (frame, none)
    else stop .stuck
  | .assignVar name value | .initialAssign name value => do
    let new ← eval host call frame value
    frame.write (.named name.original.string) new
    pure (frame, none)
  | .ifStmt condition consequent alternative => do
    let holds ← eval host call frame condition >>= asBool
    let (_, returned) ← if holds then execStmt frame consequent else execStmt frame alternative
    pure (frame, returned)
  | .caseStmt value whens kind => do
    let (tag, pick) ← eval host call frame value >>= scrutinee kind
    let returned ← execArm frame tag pick whens
    pure (frame, returned)
  | .whileStmt condition body => do
    let returned ← loop .limit (do
      if ← eval host call frame condition >>= asBool then
        let (_, returned) ← execStmt frame body
        pure (returned.map some)
      else pure (some none)) limit
    pure (frame, returned)
  | .forStmt name start final body => do
    let first ← eval host call frame start >>= asInt
    let last ← eval host call frame final >>= asInt
    let cell ← alloc (.int first)
    let returned ← loop .limit (do
      let current ← load ⟨cell, []⟩ >>= asInt
      if current ≤ last then
        let (_, returned) ← execStmt ((.named name.string, cell) :: frame) body
        match returned with
        | some value => pure (some (some value))
        | none =>
          store ⟨cell, []⟩ (.int (current + 1))
          pure none
      else pure (some none)) limit
    pure (frame, returned)
  | .borrow original rename _ _ _ body mode => do
    let source ← frame.cellOf (.named original.string)
    let reference ← match mode with
      | .read => pure (.reference false ⟨source, []⟩)
      | .write => pure (.reference true ⟨source, []⟩)
      | .reborrow => do
        let (writable, place) ← load ⟨source, []⟩ >>= asReference
        if writable then pure (.reference true place) else stop .stuck
    let cell ← alloc reference
    let (_, returned) ← execStmt ((.named rename.string, cell) :: frame) body
    pure (frame, returned)
  | .block first second => do
    let (inner, returned) ← execStmt frame first
    match returned with
    | some value => pure (inner, some value)
    | none => execStmt inner second
  | .discarding value => do
    let _ ← eval host call frame value
    pure (frame, none)
  | .returnStmt value => do
    let result ← eval host call frame value
    pure (frame, some result)
  | .letTmp name _ value => do
    let initial ← eval host call frame value
    let cell ← alloc initial
    pure ((.temporary name.string, cell) :: frame, none)
  | .assignTmp name value => do
    let new ← eval host call frame value
    frame.write (.temporary name.string) new
    pure (frame, none)

def execArm (frame : Frame) (tag : Identifier) (pick : Identifier → Option Value) :
    List (TypedWhen TStmt) → Run (Option Value)
  | [] => stop .stuck
  | ⟨name, bindings, body⟩ :: whens =>
    if name = tag then do
      let inner ← bindSlots pick frame bindings
      let (_, returned) ← execStmt inner body
      pure returned
    else execArm frame tag pick whens

end

end Statements

/-! ## Programs -/

/-- The code of what can be called; the rest is foreign. -/
structure Code where
  params : List Identifier
  body : TStmt

abbrev Program := Callee → Option Code

def enter (frame : Frame) : List Identifier → List Value → Run Frame
  | [], [] => pure frame
  | param :: params, arg :: args => do
    let cell ← alloc arg
    enter ((.named param.string, cell) :: frame) params args
  | _, _ => stop .stuck

/-- A call with a limit on the depth of calls and on the rounds of a loop. -/
def callAt (host : Host) (program : Program) : Nat → Callee → List Value → Run Value
  | 0, _, _ => stop .limit
  | depth + 1, callee, args =>
    match program callee with
    | none => host.foreign callee args
    | some code => do
      let frame ← enter [] code.params args
      let (_, returned) ← execStmt host (callAt host program depth) depth frame code.body
      pure (returned.getD .unit)

end AustralVM.Typed
