import AustralVM.TypeBindings

/-!
# The typed syntax tree

The tree the type checker produces and the later passes consume, with the
constructors of `Stages.Tast`.  Source spans and docstrings are dropped: no
modelled pass reads them.
-/

namespace AustralVM

inductive ComparisonOperator
  | equal
  | notEqual
  | lessThan
  | lessThanOrEqual
  | greaterThan
  | greaterThanOrEqual
  deriving DecidableEq, Repr

inductive Pragma
  | foreignImport (name : String)
  | foreignExport (name : String)
  | unsafeModule
  | liquid (kind contract : String)
  | rustOwnership (params : List String) (returned : String)
  deriving DecidableEq, Repr

def decimalValue (digits : List Char) : Nat :=
  digits.foldl (fun value digit => 10 * value + (digit.toNat - '0'.toNat)) 0

/-- The integer of a literal, which the lexer hands on as text: decimal digits with an
optional sign. -/
def integerOfText (text : String) : Option Int :=
  let (negative, digits) : Bool × List Char :=
    match text.toList with
    | '-' :: digits => (true, digits)
    | '+' :: digits => (false, digits)
    | digits => (false, digits)
  if digits ≠ [] ∧ digits.all Char.isDigit then
    some (if negative then -(decimalValue digits : Int) else decimalValue digits)
  else none

inductive Mutability
  | immutable
  | mutable
  deriving DecidableEq, Repr

inductive BorrowStmtKind
  | read
  | write
  | reborrow
  deriving DecidableEq, Repr

inductive TypeVis
  | visPublic
  | visOpaque
  | visPrivate
  deriving DecidableEq, Repr

inductive Vis
  | visPublic
  | visPrivate
  deriving DecidableEq, Repr

inductive CaseRef
  | casePlain
  | caseRef
  deriving DecidableEq, Repr

structure TypedBinding where
  name : Identifier
  ty : Ty
  rename : Identifier
  deriving Repr

inductive TExpr
  | nilConstant
  | boolConstant (value : Bool)
  | intConstant (value : String)
  | floatConstant (value : String)
  | stringConstant (value : String)
  | constVar (name : QIdent) (ty : Ty)
  | paramVar (name : Identifier) (ty : Ty)
  | localVar (name : Identifier) (ty : Ty)
  | funVar (id : DeclId) (ty : Ty) (bindings : TypeBindings)
  | temporary (name : Identifier) (ty : Ty)
  | funcall (id : DeclId) (name : QIdent) (args : List TExpr) (rt : Ty)
      (bindings : TypeBindings)
  | methodCall (id : InsMethId) (name : QIdent) (typarams : List TypeParameter)
      (args : List TExpr) (rt : Ty) (bindings : TypeBindings)
  | varMethodCall (sourceModuleName : ModuleName) (typeclassId : DeclId)
      (params : List ValueParameter) (methodName : QIdent) (args : List TExpr)
      (dispatchTy rt : Ty) (bindings : TypeBindings)
  | fptrCall (name : Identifier) (args : List TExpr) (rt : Ty)
  | cast (expr : TExpr) (ty : Ty)
  | comparison (operator : ComparisonOperator) (lhs rhs : TExpr)
  | conjunction (lhs rhs : TExpr)
  | disjunction (lhs rhs : TExpr)
  | negation (expr : TExpr)
  | ifExpression (condition consequent alternative : TExpr)
  | recordConstructor (ty : Ty) (args : List (Identifier × TExpr))
  | unionConstructor (ty : Ty) (caseName : Identifier) (args : List (Identifier × TExpr))
  | slotAccessor (expr : TExpr) (slotName : Identifier) (ty : Ty)
  | pointerSlotAccessor (expr : TExpr) (slotName : Identifier) (ty : Ty)
  | arrayIndex (expr index : TExpr) (ty : Ty)
  | spanIndex (expr index : TExpr) (ty : Ty)
  | embed (ty : Ty) (template : String) (args : List TExpr)
  | deref (expr : TExpr)
  | sizeOf (ty : Ty)
  deriving Repr

structure TypedWhen (Stmt : Type) where
  name : Identifier
  bindings : List TypedBinding
  body : Stmt
  deriving Repr

inductive TStmt
  | skip
  | letStmt (mutability : Mutability) (name : Identifier) (ty : Ty) (body : TStmt)
  | destructure (mutability : Mutability) (bindings : List TypedBinding) (value : TExpr)
      (body : TStmt)
  | assign (lvalue value : TExpr)
  | assignVar (name : QIdent) (value : TExpr)
  | initialAssign (name : QIdent) (value : TExpr)
  | ifStmt (condition : TExpr) (consequent alternative : TStmt)
  | caseStmt (scrutinee : TExpr) (whens : List (TypedWhen TStmt)) (kind : CaseRef)
  | whileStmt (condition : TExpr) (body : TStmt)
  | forStmt (name : Identifier) (start final : TExpr) (body : TStmt)
  | borrow (original rename region : Identifier) (origType refType : Ty) (body : TStmt)
      (mode : BorrowStmtKind)
  | block (first second : TStmt)
  | discarding (value : TExpr)
  | returnStmt (value : TExpr)
  | letTmp (name : Identifier) (ty : Ty) (value : TExpr)
  | assignTmp (name : Identifier) (value : TExpr)
  deriving Repr

namespace TStmt

@[elab_as_elim, induction_eliminator]
theorem induction {motive : TStmt → Prop} (skip : motive .skip)
    (letStmt : ∀ mutability name ty body, motive body → motive (.letStmt mutability name ty body))
    (destructure : ∀ mutability bindings value body, motive body →
      motive (.destructure mutability bindings value body))
    (assign : ∀ lvalue value, motive (.assign lvalue value))
    (assignVar : ∀ name value, motive (.assignVar name value))
    (initialAssign : ∀ name value, motive (.initialAssign name value))
    (ifStmt : ∀ condition consequent alternative, motive consequent → motive alternative →
      motive (.ifStmt condition consequent alternative))
    (caseStmt : ∀ scrutinee whens kind, (∀ arm ∈ whens, motive arm.body) →
      motive (.caseStmt scrutinee whens kind))
    (whileStmt : ∀ condition body, motive body → motive (.whileStmt condition body))
    (forStmt : ∀ name start final body, motive body → motive (.forStmt name start final body))
    (borrow : ∀ original rename region origType refType body mode, motive body →
      motive (.borrow original rename region origType refType body mode))
    (block : ∀ first second, motive first → motive second → motive (.block first second))
    (discarding : ∀ value, motive (.discarding value))
    (returnStmt : ∀ value, motive (.returnStmt value))
    (letTmp : ∀ name ty value, motive (.letTmp name ty value))
    (assignTmp : ∀ name value, motive (.assignTmp name value)) (stmt : TStmt) : motive stmt :=
  @TStmt.rec motive (fun whens => ∀ arm ∈ whens, motive arm.body) (fun arm => motive arm.body)
    skip letStmt destructure assign assignVar initialAssign ifStmt caseStmt whileStmt forStmt
    borrow block discarding returnStmt letTmp assignTmp
    (List.forall_mem_nil _)
    (fun _ _ first rest => List.forall_mem_cons.mpr ⟨first, rest⟩)
    (fun _ _ _ bodyHolds => bodyHolds)
    stmt

end TStmt

structure TypedMethodDef where
  id : InsMethId
  name : Identifier
  params : List ValueParameter
  rt : Ty
  body : TStmt
  deriving Repr

inductive TypedDecl
  | constant (id : DeclId) (name : Identifier) (ty : Ty) (value : TExpr)
  | record (id : DeclId) (name : Identifier) (typarams : List TypeParameter)
      (slots : List TypedSlot)
  | union (id : DeclId) (name : Identifier) (typarams : List TypeParameter)
      (cases : List TypedCase)
  | function (id : DeclId) (name : Identifier) (typarams : List TypeParameter)
      (params : List ValueParameter) (rt : Ty) (body : TStmt) (pragmas : List Pragma)
  | foreignFunction (id : DeclId) (name : Identifier) (params : List ValueParameter) (rt : Ty)
      (externalName : String) (pragmas : List Pragma)
  | typeClass (id : DeclId) (name : Identifier)
  | instanceDecl (id : DeclId) (typeclassName : QIdent) (typarams : List TypeParameter)
      (argument : Ty) (methods : List TypedMethodDef)
  deriving Repr

structure TypedModule where
  name : ModuleName
  decls : List TypedDecl
  deriving Repr

end AustralVM
