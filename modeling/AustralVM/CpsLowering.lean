import AustralVM.CpsIr
import AustralVM.Environment

/-!
# Lowering to the CPS intermediate representation

`Compiler_cps.ml`: the translation of monomorphic expressions and statements,
and of the functions of a module.  Its global tables are a record that is passed
along; registering a module's declarations returns the next one.
-/

namespace AustralVM

/-- The tables that the lowering looks names and layouts up in. -/
structure CpsTables where
  recordLayouts : List (MonoId × List MonoSlot)
  unionLayouts : List (MonoId × List MonoCase)
  foreignFunctions : List (DeclId × String)
  foreignFunctionsByName : List (String × String)
  /-- `float_of_string`. -/
  floatOfString : String → Option OcamlFloat

def CpsTables.initial (floatOfString : String → Option OcamlFloat) : CpsTables :=
  ⟨[], [], [], [], floatOfString⟩

/-! ## Names, types and layouts -/

def endsWith (text suffix : String) : Bool := suffix.toList.isSuffixOf text.toList

/-- Names that are taken for the exit of the program. -/
def isExitSuccess (name : QIdent) : Bool :=
  let debugName := qidentDebugName name
  endsWith debugName ":ExitSuccess" || endsWith debugName ".ExitSuccess" ||
    debugName = "ExitSuccess"

def monoTyToCpsType : MonoTy → CpsType
  | .boolean => .bool
  | .unit => .unit
  | .doubleFloat | .singleFloat => .f64
  | _ => .i64

def typeSize (_ty : MonoTy) : Nat := 8

/-- The offset of a slot; a slot that is missing has offset 0. -/
def findSlotOffset : List MonoSlot → Identifier → Nat → Nat
  | [], _, _ => 0
  | slot :: slots, target, current =>
    if slot.name.string = target.string then current
    else findSlotOffset slots target (current + typeSize slot.ty)

/-- The number of a case; a case that is missing has number 0. -/
def findUnionCaseOffset : List MonoCase → Identifier → Nat → Nat
  | [], _, _ => 0
  | unionCase :: cases, target, current =>
    if unionCase.name.string = target.string then current
    else findUnionCaseOffset cases target (current + 1)

def CpsTables.findRecordSlotOffset (tables : CpsTables) (id : MonoId) (name : Identifier) : Nat :=
  match tables.recordLayouts.lookup id with
  | some slots => findSlotOffset slots name 0
  | none => 0

/-- The offset of a slot in a value of a type: only named types have layouts. -/
def CpsTables.slotOffset (tables : CpsTables) (ty : MonoTy) (name : Identifier) : Nat :=
  match ty with
  | .namedType id => tables.findRecordSlotOffset id name
  | _ => 0

/-- The type that a reference, pointer or address leads to. -/
def MonoTy.pointee : MonoTy → MonoTy
  | .pointer ty | .address ty | .readRef ty _ | .writeRef ty _ => ty
  | _ => .unit

/-- The type of the elements that an index selects. -/
def MonoTy.element : MonoTy → MonoTy
  | .pointer ty | .address ty | .span ty _ | .spanMut ty _ => ty
  | _ => .unit

def getExprType : MExpr → MonoTy
  | .nilConstant => .unit
  | .boolConstant _ => .boolean
  | .intConstant _ => .integer .signed .width64
  | .floatConstant _ => .doubleFloat
  | .stringConstant _ => .pointer (.integer .unsigned .width8)
  | .constVar _ ty | .paramVar _ ty | .localVar _ ty | .temporary _ ty => ty
  | .genericFunVar _ ty | .concreteFunVar _ ty => ty
  | .concreteFuncall _ _ _ ty | .genericFuncall _ _ ty => ty
  | .concreteMethodCall _ _ _ ty | .genericMethodCall _ _ _ ty | .fptrCall _ _ ty => ty
  | .cast _ ty => ty
  | .comparison _ _ _ | .conjunction _ _ | .disjunction _ _ | .negation _ => .boolean
  | .ifExpression _ consequent _ => getExprType consequent
  | .recordConstructor ty _ | .unionConstructor ty _ _ | .embed ty _ _ => ty
  | .deref expr => (getExprType expr).pointee
  | .typecast _ ty => ty
  | .sizeOf _ => .integer .unsigned .width64
  | .slotAccessor _ _ ty | .pointerSlotAccessor _ _ ty => ty
  | .arrayIndex expr _ _ | .spanIndex expr _ _ => (getExprType expr).element

/-! ## Expressions -/

/-- `Int64.of_string`, which fails out of range. -/
def int64OfString (text : String) : Option (BitVec 64) :=
  match integerOfText text with
  | some value => if OcamlFloat.inRange value then some (BitVec.ofInt 64 value) else none
  | none => none

def zeroFloat : OcamlFloat := .finite 0 0 (by decide)

def wordLit (value : Nat) : CpsExpr := .intLit (BitVec.ofNat 64 value)

def comparisonOp : ComparisonOperator → CpsBinop
  | .lessThan => .cmpLt
  | .greaterThan => .cmpGt
  | .lessThanOrEqual => .cmpLte
  | .greaterThanOrEqual => .cmpGte
  | .equal => .cmpEq
  | .notEqual => .cmpNeq

/-- The symbol that a direct call is lowered to: a foreign function by the id of
its declaration, then by its name, and any other function by its own name. -/
def CpsTables.calleeName (tables : CpsTables) (id : DeclId) (name : QIdent) : String :=
  match tables.foreignFunctions.lookup id with
  | some symbol => symbol
  | none =>
    match tables.foreignFunctionsByName.lookup name.original.string with
    | some symbol => symbol
    | none => name.original.string

/-- The number of a union's case and the size of its values. -/
def CpsTables.unionTagAndSize (tables : CpsTables) (ty : MonoTy) (tag : Identifier) : Nat × Nat :=
  match ty with
  | .namedType id =>
    match tables.unionLayouts.lookup id with
    | some cases =>
      let maxFields := cases.foldl (fun most unionCase => max most unionCase.slots.length) 0
      (findUnionCaseOffset cases tag 0, (maxFields + 1) * 8)
    | none => (0, 16)
  | _ => (0, 16)

/-- An embedded C expression: only the accessors of spans and two constants are
known. -/
def convertEmbed (template : String) (args : List CpsExpr) : CpsExpr :=
  match template.trimAscii.toString, args with
  | "$1.data", [arg] => .app "__slot_get" [arg, wordLit 0]
  | "$1.size", [arg] => .app "__slot_get" [arg, wordLit 8]
  | "NULL", [] => .intLit 0
  | "$1", [arg] => arg
  | _, args => .app "__embed" args

mutual

@[grind =] def convertExpr (tables : CpsTables) : MExpr → CpsExpr
  | .nilConstant => .intLit 0
  | .boolConstant value => .boolLit value
  | .intConstant text => .intLit ((int64OfString text).getD 0)
  | .floatConstant text => .floatLit ((tables.floatOfString text).getD zeroFloat)
  | .stringConstant text => .stringLit (utf8 text)
  | .constVar name _ =>
    if isExitSuccess name then .app "au_exit" [.intLit 0] else .var (qidentDebugName name)
  | .paramVar name _ | .localVar name _ | .temporary name _ => .var name.string
  | .genericFunVar id _ => .var ("monomorph_" ++ showMonoId id)
  | .concreteFunVar id _ => .var ("fun_" ++ showDeclId id)
  | .concreteFuncall id name args _ =>
    if isExitSuccess name then .app "au_exit" [.intLit 0]
    else .app (tables.calleeName id name) (convertExprs tables args)
  | .genericFuncall id args _ => .app ("monomorph_" ++ showMonoId id) (convertExprs tables args)
  | .concreteMethodCall _ name args _ => .app (qidentDebugName name) (convertExprs tables args)
  | .genericMethodCall _ id args _ => .app ("method_" ++ showMonoId id) (convertExprs tables args)
  | .fptrCall name args _ => .app name.string (convertExprs tables args)
  | .cast expr _ => convertExpr tables expr
  | .comparison operator lhs rhs =>
    .binary (comparisonOp operator) (convertExpr tables lhs) (convertExpr tables rhs)
  | .conjunction lhs rhs => .binary .and (convertExpr tables lhs) (convertExpr tables rhs)
  | .disjunction lhs rhs => .binary .or (convertExpr tables lhs) (convertExpr tables rhs)
  | .negation expr => .not (convertExpr tables expr)
  | .ifExpression condition consequent alternative =>
    .app "__if_expr" [convertExpr tables condition, convertExpr tables consequent,
      convertExpr tables alternative]
  | .recordConstructor _ fields =>
    .app "__record_new"
      (wordLit (max (fields.length * 8) 8) :: convertFields tables fields)
  | .unionConstructor ty tag fields =>
    let (number, size) := tables.unionTagAndSize ty tag
    .app "__union_new" (wordLit size :: wordLit number :: convertFields tables fields)
  | .embed _ template args => convertEmbed template (convertExprs tables args)
  | .deref expr => .app "__deref" [convertExpr tables expr]
  | .typecast expr _ => convertExpr tables expr
  | .sizeOf _ => .intLit 0
  | .slotAccessor expr name _ =>
    .app "__slot_get"
      [convertExpr tables expr, wordLit (tables.slotOffset (getExprType expr) name)]
  | .pointerSlotAccessor expr name _ =>
    .app "__ptr_slot_get"
      [convertExpr tables expr, wordLit (tables.slotOffset (getExprType expr).pointee name)]
  | .arrayIndex expr index _ =>
    .app "__array_index" [convertExpr tables expr, convertExpr tables index]
  | .spanIndex expr index _ =>
    .app "__span_index" [convertExpr tables expr, convertExpr tables index]

def convertExprs (tables : CpsTables) : List MExpr → List CpsExpr
  | [] => []
  | expr :: exprs => convertExpr tables expr :: convertExprs tables exprs

def convertFields (tables : CpsTables) : List (Identifier × MExpr) → List CpsExpr
  | [] => []
  | (_, expr) :: fields => convertExpr tables expr :: convertFields tables fields

end

/-! ## Statements -/

def zeroValue : CpsType → CpsExpr
  | .i64 | .i32 | .unit | .string => .intLit 0
  | .bool => .boolLit false
  | .f64 => .floatLit zeroFloat

def blockOf (stmts : List CpsStmt) (last : CpsStmt) : CpsStmt := stmts.foldr .block last

def loadSlot (variableName tmp : String) (offset : Nat) : CpsStmt :=
  .letStmt variableName (.app "__slot_get" [.var tmp, wordLit offset]) .skip

/-- The bindings of a case: its fields follow the tag. -/
def caseBindings (tmp : String) (bindings : List MonoBinding) : List CpsStmt :=
  bindings.zipIdx.map fun (binding, index) => loadSlot binding.rename.string tmp ((index + 1) * 8)

/-- The number that an arm is selected by: that of its case in the layout of the
scrutinee's type, or without a layout its position. -/
def CpsTables.armNumber (tables : CpsTables) (scrutineeTy : MonoTy) (tag : Identifier)
    (position : Nat) : Nat :=
  match scrutineeTy with
  | .namedType id =>
    match tables.unionLayouts.lookup id with
    | some cases => findUnionCaseOffset cases tag 0
    | none => position
  | _ => position

/-- Load the tag of a union, or compare the scrutinee itself if it is none. -/
def tagLoad : MonoTy → CpsStmt
  | .namedType _ =>
    .letStmt "__match_tag" (.app "__slot_get" [.var "__match_scrutinee", wordLit 0]) .skip
  | _ => .letStmt "__match_tag" (.var "__match_scrutinee") .skip

def armStmt (number : Nat) (bindings : List MonoBinding) (body : CpsStmt) : CpsStmt :=
  .ifStmt (.binary .cmpEq (.var "__match_tag") (wordLit number))
    (blockOf (caseBindings "__match_scrutinee" bindings) body) .skip

mutual

@[grind =] def convertStmt (tables : CpsTables) : MStmt → CpsStmt
  | .skip => .skip
  | .letStmt name ty body =>
    .letStmt name.string (zeroValue (monoTyToCpsType ty)) (convertStmt tables body)
  | .destructure bindings value body =>
    let loads := bindings.map fun binding =>
      loadSlot binding.rename.string "__destructure_tmp"
        (tables.slotOffset (getExprType value) binding.name)
    .block (.letStmt "__destructure_tmp" (convertExpr tables value) .skip)
      (blockOf loads (convertStmt tables body))
  | .assign lvalue value =>
    match convertExpr tables lvalue with
    | .var name => .assign name (convertExpr tables value)
    | _ => .assign "__assign_target" (convertExpr tables value)
  | .assignVar name value | .initialAssign name value =>
    .assign name.original.string (convertExpr tables value)
  | .ifStmt condition consequent alternative =>
    .ifStmt (convertExpr tables condition) (convertStmt tables consequent)
      (convertStmt tables alternative)
  | .caseStmt scrutinee whens _ =>
    .block (.letStmt "__match_scrutinee" (convertExpr tables scrutinee) .skip)
      (.block (tagLoad (getExprType scrutinee))
        (blockOf (convertWhens tables (getExprType scrutinee) whens 0) .skip))
  | .whileStmt condition body => .whileStmt (convertExpr tables condition) (convertStmt tables body)
  | .forStmt name start final body =>
    .block (.letStmt name.string (convertExpr tables start) .skip)
      (.whileStmt (.binary .cmpLt (.var name.string) (convertExpr tables final))
        (.block (convertStmt tables body)
          (.assign name.string (.binary .add (.var name.string) (.intLit 1)))))
  | .borrow _ rename _ _ _ body _ => .letStmt rename.string (.intLit 0) (convertStmt tables body)
  | .block first second => .block (convertStmt tables first) (convertStmt tables second)
  | .discarding value => .discard (convertExpr tables value)
  | .returnStmt value => .returnStmt (convertExpr tables value)
  | .letTmp name _ value => .letStmt name.string (convertExpr tables value) .skip
  | .assignTmp name value => .assign name.string (convertExpr tables value)

def convertWhens (tables : CpsTables) (scrutineeTy : MonoTy) :
    List (MTypedWhen MStmt) → Nat → List CpsStmt
  | [], _ => []
  | ⟨tag, bindings, body⟩ :: whens, position =>
    armStmt (tables.armNumber scrutineeTy tag position) bindings (convertStmt tables body) ::
      convertWhens tables scrutineeTy whens (position + 1)

end

/-! ## Functions and modules -/

def paramNames (params : List MValueParameter) : List String :=
  params.map fun param => param.name.string

def buildCpsFunction (tables : CpsTables) : MDecl → Option FunctionDef
  | .function _ name params rt body =>
    some ⟨name.string, paramNames params, monoTyToCpsType rt, convertStmt tables body⟩
  | .functionMonomorph id params rt body =>
    some ⟨"monomorph_" ++ showMonoId id, paramNames params, monoTyToCpsType rt,
      convertStmt tables body⟩
  | .methodMonomorph id params rt body =>
    some ⟨"method_" ++ showMonoId id, paramNames params, monoTyToCpsType rt,
      convertStmt tables body⟩
  | .constant _ name ty value =>
    some ⟨name.string, [], monoTyToCpsType ty, .returnStmt (convertExpr tables value)⟩
  | _ => none

namespace CpsTables

/-- Register the layouts and foreign functions of a declaration; an entry for the
same key is replaced. -/
def register (tables : CpsTables) : MDecl → CpsTables
  | .recordMonomorph id slots =>
    { tables with recordLayouts := (id, slots) :: tables.recordLayouts }
  | .unionMonomorph id cases => { tables with unionLayouts := (id, cases) :: tables.unionLayouts }
  | .foreignFunction id name _ _ externalName =>
    { tables with
      foreignFunctions := (id, externalName) :: tables.foreignFunctions
      foreignFunctionsByName := (name.string, externalName) :: tables.foreignFunctionsByName }
  | _ => tables

def registerAll (tables : CpsTables) (decls : List MDecl) : CpsTables :=
  decls.foldl register tables

end CpsTables

/-- Register the declarations of a module, then convert its functions. -/
def compileModuleCps (tables : CpsTables) (source : MonoModule) :
    (List FunctionDef × String) × CpsTables :=
  let tables := tables.registerAll source.decls
  ((source.decls.filterMap (buildCpsFunction tables), source.name.string), tables)

end AustralVM
