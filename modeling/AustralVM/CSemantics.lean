import Mathlib.Data.Int.Notation
import AustralVM.CBackend
import AustralVM.StructuredRuns

/-!
# Running the generated C

The meaning of the C that the backend generates, on a 64-bit target: integers of
every width with the conversions of the language, structures, pointers to
variables and their slots, and short-circuit operators.  Function calls, and the
expressions whose meaning lies outside the generated text, are the business of a
host.  No Austral variable shadows another, so a name stands for one variable of
a function.
-/

namespace AustralVM

/-! ## Integers -/

structure CIntType where
  signed : Bool
  bits : Nat
  deriving DecidableEq, Repr

namespace CIntType

def int : CIntType := ⟨true, 32⟩

def unsignedInt : CIntType := ⟨false, 32⟩

def long : CIntType := ⟨true, 64⟩

def unsignedLong : CIntType := ⟨false, 64⟩

/-- Conversion of a value to the type; implementations wrap. -/
def wrap (ty : CIntType) (value : Int) : Int :=
  if ty.signed then value.bmod (2 ^ ty.bits) else value % 2 ^ ty.bits

def Holds (ty : CIntType) (value : Int) : Prop :=
  if ty.signed then -2 ^ (ty.bits - 1) ≤ value ∧ value < 2 ^ (ty.bits - 1)
  else 0 ≤ value ∧ value < 2 ^ ty.bits

instance (ty : CIntType) (value : Int) : Decidable (ty.Holds value) := by
  unfold Holds
  infer_instance

def promote (ty : CIntType) : CIntType := if ty.bits < 32 then int else ty

def common (first second : CIntType) : CIntType :=
  let first := first.promote
  let second := second.promote
  if first.bits < second.bits then second
  else if second.bits < first.bits then first
  else ⟨first.signed && second.signed, first.bits⟩

end CIntType

def integerTypeNamed (name : String) : Option CIntType :=
  [("au_unit_t", ⟨false, 8⟩), ("au_bool_t", ⟨false, 8⟩),
    ("au_nat8_t", ⟨false, 8⟩), ("au_int8_t", ⟨true, 8⟩),
    ("au_nat16_t", ⟨false, 16⟩), ("au_int16_t", ⟨true, 16⟩),
    ("au_nat32_t", ⟨false, 32⟩), ("au_int32_t", ⟨true, 32⟩),
    ("au_nat64_t", ⟨false, 64⟩), ("au_int64_t", ⟨true, 64⟩),
    ("size_t", ⟨false, 64⟩), ("au_index_t", ⟨false, 64⟩)].lookup name

def CTy.integerType : CTy → Option CIntType
  | .namedType name => integerTypeNamed name
  | .pointer _ => none

/-- The value of digits in a base, unless one of them is none of the base's. -/
def digitsValue (base : Nat) (digits : List Char) : Option Nat :=
  digits.foldlM (fun value digit =>
    let number := digit.toNat - '0'.toNat
    if digit.isDigit ∧ number < base then some (base * value + number) else none) 0

def firstHolding (types : List CIntType) (value : Int) : Option CIntType :=
  types.find? fun ty => decide (ty.Holds value)

/-- An integer constant without a sign.  A leading zero makes it octal; a decimal
constant above the signed types is taken to be unsigned. -/
def unsignedConstant (digits : List Char) : Option (CIntType × Int) := do
  match digits with
  | [] => none
  | '0' :: octal =>
    let value ← digitsValue 8 octal
    let ty ← firstHolding [.int, .unsignedInt, .long, .unsignedLong] value
    some (ty, value)
  | _ =>
    let value ← digitsValue 10 digits
    let ty ← firstHolding [.int, .long, .unsignedLong] value
    some (ty, value)

/-- An integer constant, with a sign operator in front of it. -/
def integerConstant (text : String) : Option (CIntType × Int) :=
  match text.toList with
  | '-' :: digits => do
    let (ty, value) ← unsignedConstant digits
    some (ty, ty.wrap (-value))
  | '+' :: digits => unsignedConstant digits
  | digits => unsignedConstant digits

/-! ## Values and states -/

/-- A variable, and the slots that lead to a part of it. -/
structure CPlace where
  root : String
  path : List String
  deriving DecidableEq, Repr

inductive CValue
  | int (ty : CIntType) (value : Int)
  | struct (fields : List (String × CValue))
  | pointer (place : CPlace)
  /-- A value that the generated code only passes on. -/
  | other (word : BitVec 64)
  deriving Repr

structure CState (ω : Type) where
  vars : String → Option CValue
  world : ω

namespace CValue

def truth : CValue → Option Bool
  | .int _ value => some (value != 0)
  | _ => none

/-- The result of a comparison or a logical operator. -/
def ofBool (value : Bool) : CValue := .int .int (if value then 1 else 0)

def slot (value : CValue) (name : String) : Option CValue :=
  match value with
  | .struct fields => fields.lookup name
  | _ => none

def follow : CValue → List String → Option CValue
  | value, [] => some value
  | value, name :: path => value.slot name >>= fun inner => inner.follow path

def replace : CValue → List String → CValue → Option CValue
  | _, [], new => some new
  | .struct fields, name :: path, new => do
    let inner ← fields.lookup name
    let changed ← inner.replace path new
    some (.struct (fields.map fun field => if field.1 = name then (name, changed) else field))
  | _, _ :: _, _ => none

/-- A value assigned to where another value is: it is converted to its type. -/
def convertLike : CValue → CValue → CValue
  | .int ty _, .int _ value => .int ty (ty.wrap value)
  | _, new => new

def convertTo (ty : CTy) (value : CValue) : CValue :=
  match ty.integerType, value with
  | some ty, .int _ value => .int ty (ty.wrap value)
  | _, value => value

def uninitialized (ty : CTy) : CValue :=
  match ty.integerType with
  | some ty => .int ty 0
  | none => .struct []

end CValue

namespace CState

variable {ω : Type}

def declare (state : CState ω) (name : String) (value : CValue) : CState ω :=
  { state with vars := Function.update state.vars name (some value) }

def read (state : CState ω) (place : CPlace) : Option CValue :=
  state.vars place.root >>= fun value => value.follow place.path

def write (state : CState ω) (place : CPlace) (new : CValue) : Option (CState ω) := do
  let old ← state.read place
  let value ← state.vars place.root
  let changed ← value.replace place.path (old.convertLike new)
  some (state.declare place.root changed)

@[simp]
theorem vars_declare_self (state : CState ω) (name : String) (value : CValue) :
    (state.declare name value).vars name = some value := by
  simp [declare]

theorem vars_declare_of_ne (state : CState ω) (ne : other ≠ name) (value : CValue) :
    (state.declare name value).vars other = state.vars other := by
  simp [declare, ne]

end CState

/-! ## Expressions -/

/-- The functions that the generated code calls, and the meaning of the remaining
expressions when their operands have values: constants and enumerators, texts,
floating-point numbers, embedded C, sizes, and conversions and comparisons of
values that are no integers. -/
structure CHost (ω : Type) where
  call : String → List CValue → CState ω → Option (CValue × CState ω)
  callPointer : CValue → List CValue → CState ω → Option (CValue × CState ω)
  other : CExpr → List CValue → CState ω → Option (CValue × CState ω)

def CHost.bare : CHost Unit := ⟨fun _ _ _ => none, fun _ _ _ => none, fun _ _ _ => none⟩

def CState.ofList (vars : List (String × CValue)) : CState Unit := ⟨fun name => vars.lookup name, ()⟩

def ComparisonOperator.holds : ComparisonOperator → Int → Int → Bool
  | .equal, lhs, rhs => lhs == rhs
  | .notEqual, lhs, rhs => lhs != rhs
  | .lessThan, lhs, rhs => lhs < rhs
  | .lessThanOrEqual, lhs, rhs => lhs ≤ rhs
  | .greaterThan, lhs, rhs => rhs < lhs
  | .greaterThanOrEqual, lhs, rhs => rhs ≤ lhs

def compareC (operator : ComparisonOperator) : CValue → CValue → Option CValue
  | .int ty lhs, .int ty' rhs =>
    let common := ty.common ty'
    some (.ofBool (operator.holds (common.wrap lhs) (common.wrap rhs)))
  | _, _ => none

section Semantics

variable {ω : Type} (host : CHost ω)

mutual

/-- The value of an expression, and the state after it. -/
def evalC : CExpr → CState ω → Option (CValue × CState ω)
  | .bool value, state => some (.ofBool value, state)
  | .int text, state => do
    let (ty, value) ← integerConstant text
    some (.int ty value, state)
  | .var name, state =>
    match state.vars name with
    | some value => some (value, state)
    | none => host.other (.var name) [] state
  | .funcall name args, state => do
    let (values, state) ← evalArgsC args state
    host.call name values state
  | .fptrCall function _ _ args, state => do
    let (pointer, state) ← evalC function state
    let (values, state) ← evalArgsC args state
    host.callPointer pointer values state
  | .cast expr ty, state => do
    let (value, state) ← evalC expr state
    match ty.integerType, value with
    | some ty, .int _ value => some (.int ty (ty.wrap value), state)
    | _, value => host.other (.cast expr ty) [value] state
  | .comparison operator lhs rhs, state => do
    let (left, state) ← evalC lhs state
    let (right, state) ← evalC rhs state
    match compareC operator left right with
    | some result => some (result, state)
    | none => host.other (.comparison operator lhs rhs) [left, right] state
  | .conjunction lhs rhs, state => do
    let (left, state) ← evalC lhs state
    if ← left.truth then
      let (right, state) ← evalC rhs state
      some (.ofBool (← right.truth), state)
    else some (.ofBool false, state)
  | .disjunction lhs rhs, state => do
    let (left, state) ← evalC lhs state
    if ← left.truth then some (.ofBool true, state)
    else
      let (right, state) ← evalC rhs state
      some (.ofBool (← right.truth), state)
  | .negation expr, state => do
    let (value, state) ← evalC expr state
    some (.ofBool (!(← value.truth)), state)
  | .ifExpression condition consequent alternative, state => do
    let (value, state) ← evalC condition state
    if ← value.truth then evalC consequent state else evalC alternative state
  | .structInitializer fields, state => do
    let (fields, state) ← evalFieldsC fields state
    some (.struct fields, state)
  | .structAccessor expr slot, state => do
    let (value, state) ← evalC expr state
    some (← value.slot slot, state)
  | .pointerStructAccessor expr slot, state => do
    let (pointer, state) ← evalC expr state
    match pointer with
    | .pointer place => some (← state.read ⟨place.root, place.path ++ [slot]⟩, state)
    | _ => host.other (.pointerStructAccessor expr slot) [pointer] state
  | .addressOf expr, state => do
    let (place, state) ← placeC expr state
    some (.pointer place, state)
  | .deref expr, state => do
    let (pointer, state) ← evalC expr state
    match pointer with
    | .pointer place => some (← state.read place, state)
    | _ => host.other (.deref expr) [pointer] state
  | expr, state => host.other expr [] state

def placeC : CExpr → CState ω → Option (CPlace × CState ω)
  | .var name, state => some (⟨name, []⟩, state)
  | .deref expr, state => do
    let (pointer, state) ← evalC expr state
    match pointer with
    | .pointer place => some (place, state)
    | _ => none
  | .structAccessor expr slot, state => do
    let (place, state) ← placeC expr state
    some (⟨place.root, place.path ++ [slot]⟩, state)
  | .pointerStructAccessor expr slot, state => do
    let (pointer, state) ← evalC expr state
    match pointer with
    | .pointer place => some (⟨place.root, place.path ++ [slot]⟩, state)
    | _ => none
  | _, _ => none

def evalArgsC : List CExpr → CState ω → Option (List CValue × CState ω)
  | [], state => some ([], state)
  | expr :: exprs, state => do
    let (value, state) ← evalC expr state
    let (values, state) ← evalArgsC exprs state
    some (value :: values, state)

def evalFieldsC : List (String × CExpr) → CState ω → Option (List (String × CValue) × CState ω)
  | [], state => some ([], state)
  | (name, expr) :: fields, state => do
    let (value, state) ← evalC expr state
    let (values, state) ← evalFieldsC fields state
    some ((name, value) :: values, state)

end

variable {host} in
theorem evalC_var (present : state.vars name = some value) :
    evalC host (.var name) state = some (value, state) := by
  rw [evalC, present]

/-! ## Statements -/

def testC (condition : CExpr) (state : CState ω) : Option (Bool × CState ω) := do
  let (value, state) ← evalC host condition state
  some (← value.truth, state)

def assignC (lvalue value : CExpr) (state : CState ω) : Option (CState ω) := do
  let (value, state) ← evalC host value state
  let (place, state) ← placeC host lvalue state
  state.write place value

abbrev CEnding (ω : Type) := Ending (CState ω) (CValue × CState ω)

/-- The condition of a `for` loop. -/
def forTestC (name : String) (final : CExpr) : CState ω → Option (Bool × CState ω) :=
  testC host (.comparison .lessThanOrEqual (.var name) final)

def incrementC (name : String) (state : CState ω) : Option (CState ω) :=
  match state.vars name with
  | some (.int ty value) => some (state.declare name (.int ty (ty.wrap (value + 1))))
  | _ => none

/-- One round of a `for` loop: the body, then the increment. -/
def forRoundC (name : String) (run : CState ω → Option (CEnding ω)) (state : CState ω) :
    Option (CEnding ω) := do
  let ending ← run state
  ending.andThen fun state => Ending.next <$> incrementC name state

def labelC (label : CExpr) (state : CState ω) : Option Int :=
  match evalC host label state with
  | some (.int _ value, _) => some value
  | _ => none

def selectedCase (cases : List (CExpr × CStmt)) (number : Int) (state : CState ω) : Option Nat :=
  cases.findIdx? fun entry => labelC host entry.1 state == some number

mutual

/-- Run a statement; the rounds of every loop are limited. -/
def execC (limit : Nat) : CStmt → CState ω → Option (CEnding ω)
  | .letStmt name ty none, state => some (.next (state.declare name (.uninitialized ty)))
  | .letStmt name ty (some value), state => do
    let (value, state) ← evalC host value state
    some (.next (state.declare name (.convertTo ty value)))
  | .assign lvalue value, state => do
    let state ← assignC host lvalue value state
    some (.next state)
  | .discarding value, state => do
    let (_, state) ← evalC host value state
    some (.next state)
  | .ifStmt condition consequent alternative, state => do
    let (holds, state) ← testC host condition state
    if holds then execC limit consequent state else execC limit alternative state
  | .switch value cases, state => do
    let (value, state) ← evalC host value state
    match value with
    | .int _ number => execCaseC limit cases (selectedCase host cases number state) state
    | _ => none
  | .whileStmt condition body, state =>
    iterate (testC host condition) (execC limit body) limit state
  | .forStmt name final body, state =>
    iterate (forTestC host name final) (forRoundC name (execC limit body)) limit state
  | .returnStmt value, state => .stop <$> evalC host value state
  | .block stmts, state | .explicitBlock stmts, state => execListC limit stmts state

def execListC (limit : Nat) : List CStmt → CState ω → Option (CEnding ω)
  | [], state => some (.next state)
  | stmt :: stmts, state => do
    let ending ← execC limit stmt state
    ending.andThen (execListC limit stmts)

/-- Run the case at a place, up to its `break`. -/
def execCaseC (limit : Nat) :
    List (CExpr × CStmt) → Option Nat → CState ω → Option (CEnding ω)
  | (_, body) :: _, some 0, state => execC limit body state
  | _ :: cases, some (place + 1), state => execCaseC limit cases (some place) state
  | _, _, state => some (.next state)

end

end Semantics

end AustralVM
