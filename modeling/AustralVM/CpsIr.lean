import AustralVM.Errors
import AustralVM.WireFormat

/-!
# The CPS intermediate representation and its binary form

The expressions and statements that `CpsGen.ml` writes for the just-in-time
compiler, and the bytes it writes them as: an opcode, then the operands, with
little-endian lengths in front of texts, lists and nested statements.
-/

namespace AustralVM

/-! ## Syntax -/

inductive CpsType
  | unit
  | i64
  | i32
  | bool
  | string
  | f64
  deriving DecidableEq, Repr

/-- A float of the OCaml runtime; a finite one is `mantissa * 2 ^ exponent`. -/
inductive OcamlFloat
  | nan
  | infinity (negative : Bool)
  | finite (mantissa exponent : Int) (narrow : mantissa.natAbs < 2 ^ 53)
  deriving DecidableEq, Repr

/-- The constructors of an expression that take two operands. -/
inductive CpsBinop
  | cmpLt
  | cmpGt
  | cmpLte
  | cmpGte
  | cmpEq
  | cmpNeq
  | and
  | or
  | add
  | sub
  | mul
  deriving DecidableEq, Repr

inductive CpsExpr
  | intLit (value : BitVec 64)
  | boolLit (value : Bool)
  | floatLit (value : OcamlFloat)
  | stringLit (bytes : List UInt8)
  | var (name : String)
  | app (name : String) (args : List CpsExpr)
  | deref (pointer : CpsExpr)
  | binary (op : CpsBinop) (lhs rhs : CpsExpr)
  | not (operand : CpsExpr)
  deriving Repr

inductive CpsStmt
  | skip
  | letStmt (name : String) (value : CpsExpr) (body : CpsStmt)
  | assign (name : String) (value : CpsExpr)
  | store (pointer value : CpsExpr)
  | ifStmt (condition : CpsExpr) (thenBranch elseBranch : CpsStmt)
  | whileStmt (condition : CpsExpr) (body : CpsStmt)
  | matchStmt (condition : CpsExpr) (cases : List (BitVec 64 × CpsStmt)) (default : CpsStmt)
  | block (first second : CpsStmt)
  | discard (value : CpsExpr)
  | returnStmt (value : CpsExpr)
  deriving Repr

structure FunctionDef where
  name : String
  params : List String
  returnType : CpsType
  body : CpsStmt
  deriving Repr

/-! ## Writing -/

namespace OcamlFloat

/-- A finite float rounded to the nearest integer, halves away from zero. -/
def rounded (mantissa exponent : Int) : Int :=
  if 0 ≤ exponent then mantissa * 2 ^ exponent.toNat
  else
    let unit := 2 ^ (-exponent).toNat
    mantissa.sign * ((mantissa.natAbs + unit / 2) / unit : Nat)

/-- Whether a rounded float is in the range of the literal's field. -/
def inRange (value : Int) : Bool := -2 ^ 63 ≤ value ∧ value < 2 ^ 63

/-- `Int64.of_float`, which specifies no result for a float out of range; the
x86-64 instruction gives the least integer. -/
def toInt64 (value : Int) : BitVec 64 :=
  if inRange value then BitVec.ofInt 64 value else BitVec.intMin 64

/-- The literal a float is written as.  A finite float that is not an integer is
below `2 ^ 53`, so only `nan` and the infinities fail the test of the source. -/
def literal : OcamlFloat → Comp (BitVec 64)
  | .nan => noRepresentation "nan"
  | .infinity false => noRepresentation "infinity"
  | .infinity true => noRepresentation "-infinity"
  | .finite mantissa exponent _ => .ok (toInt64 (rounded mantissa exponent))
where
  noRepresentation (shown : String) : Comp (BitVec 64) :=
    err ("float constant " ++ shown ++ " has no 64-bit integer representation; the CPS " ++
      "binary format cannot encode it")

end OcamlFloat

def CpsBinop.opcode : CpsBinop → UInt8
  | .cmpLt => 0x10
  | .cmpGt => 0x11
  | .cmpLte => 0x12
  | .cmpGte => 0x13
  | .cmpEq => 0x14
  | .cmpNeq => 0x15
  | .and => 0x16
  | .or => 0x17
  | .add => 0x05
  | .sub => 0x06
  | .mul => 0x18

mutual

def serializeCpsExpr : CpsExpr → Comp (List UInt8)
  | .intLit value => .ok (0x01 :: writeI64 value)
  | .boolLit value => .ok (0x01 :: writeI64 (if value then 1 else 0))
  | .floatLit value => do
    let literal ← value.literal
    pure (0x01 :: writeI64 literal)
  | .stringLit bytes => .ok (0x21 :: writeSized bytes)
  | .var name => .ok (0x02 :: writeString name)
  | .app name args => do
    let written ← serializeCpsExprs args
    pure (0x04 :: (writeString name ++ (writeU32 args.length ++ written)))
  | .deref pointer => do
    let written ← serializeCpsExpr pointer
    pure (0x20 :: written)
  | .binary op lhs rhs => do
    let writtenLhs ← serializeCpsExpr lhs
    let writtenRhs ← serializeCpsExpr rhs
    pure (op.opcode :: (writtenLhs ++ writtenRhs))
  | .not operand => do
    let written ← serializeCpsExpr operand
    pure (0x19 :: written)

def serializeCpsExprs : List CpsExpr → Comp (List UInt8)
  | [] => .ok []
  | expr :: exprs => do
    let written ← serializeCpsExpr expr
    let rest ← serializeCpsExprs exprs
    pure (written ++ rest)

end

mutual

def serializeCpsStmt : CpsStmt → Comp (List UInt8)
  | .skip => .ok []
  | .letStmt name value body => do
    let writtenValue ← serializeCpsExpr value
    let writtenBody ← serializeCpsStmt body
    pure (0x03 :: (writeString name ++ (writtenValue ++ writtenBody)))
  | .assign name value => do
    let writtenValue ← serializeCpsExpr value
    pure (0x03 :: (writeString name ++ writtenValue))
  | .store pointer value => do
    let writtenPointer ← serializeCpsExpr pointer
    let writtenValue ← serializeCpsExpr value
    pure (0x30 :: (writtenPointer ++ writtenValue))
  | .ifStmt condition thenBranch elseBranch => do
    let writtenCondition ← serializeCpsExpr condition
    let thenData ← serializeCpsStmt thenBranch
    let elseData ← serializeCpsStmt elseBranch
    pure (0x08 :: (writtenCondition ++ (writeSized thenData ++ writeSized elseData)))
  | .whileStmt condition body => do
    let writtenCondition ← serializeCpsExpr condition
    let bodyData ← serializeCpsStmt body
    pure (0x09 :: (writtenCondition ++ writeSized bodyData))
  | .matchStmt condition cases default => do
    let writtenCondition ← serializeCpsExpr condition
    let writtenCases ← serializeCpsCases cases
    let defaultData ← serializeCpsStmt default
    pure (0x0A :: (writtenCondition ++
      (writeU32 cases.length ++ (writtenCases ++ writeSized defaultData))))
  | .block first second => do
    let writtenFirst ← serializeCpsStmt first
    let writtenSecond ← serializeCpsStmt second
    pure (writtenFirst ++ writtenSecond)
  | .discard value => serializeCpsExpr value
  | .returnStmt value => do
    let written ← serializeCpsExpr value
    pure (0x07 :: written)

def serializeCpsCases : List (BitVec 64 × CpsStmt) → Comp (List UInt8)
  | [] => .ok []
  | (value, body) :: cases => do
    let bodyData ← serializeCpsStmt body
    let rest ← serializeCpsCases cases
    pure (writeI64 value ++ (writeSized bodyData ++ rest))

end

def CpsType.code : CpsType → UInt8
  | .i64 => 0x01
  | .i32 => 0x03
  | .bool => 0x02
  | .unit => 0x00
  | .string => 0x04
  | .f64 => 0x05

def serializeFunctionDef (function : FunctionDef) : Comp (List UInt8) := do
  let bodyData ← serializeCpsStmt function.body
  pure (writeString function.name ++ (writeU32 function.params.length ++
    (function.params.flatMap writeString ++
      (function.returnType.code :: writeSized bodyData))))

/-- The header: with a module's name the second version of the format, without
one the first. -/
def writeHeader : Option String → List UInt8
  | some name => writeU32 0x43505332 ++ writeString name
  | none => writeU32 0x43505331

def serializeFunctions (moduleName : Option String) (functions : List FunctionDef) :
    Comp (List UInt8) := do
  let written ← functions.mapM serializeFunctionDef
  pure (writeHeader moduleName ++ (writeU32 functions.length ++ written.flatten))

end AustralVM
