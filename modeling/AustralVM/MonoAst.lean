import AustralVM.TypedAst

/-!
# Monomorphic types and syntax

Types without type variables and the tree monomorphization produces, with the
constructors of `MonoType.ml` and `Stages.Mtast`.  A named type has become the id of
the monomorph that stands for it.
-/

namespace AustralVM

inductive MonoTy
  | unit
  | boolean
  | integer (signedness : Signedness) (width : IntegerWidth)
  | singleFloat
  | doubleFloat
  | namedType (id : MonoId)
  | regionTy (region : Region)
  | readRef (ty region : MonoTy)
  | writeRef (ty region : MonoTy)
  | span (ty region : MonoTy)
  | spanMut (ty region : MonoTy)
  | address (ty : MonoTy)
  | pointer (ty : MonoTy)
  | fnPtr (args : List MonoTy) (rt : MonoTy)
  | regionTyVar (name : Identifier) (source : QIdent)
  deriving Repr

structure MonoSlot where
  name : Identifier
  ty : MonoTy
  deriving Repr

structure MonoCase where
  name : Identifier
  slots : List MonoSlot
  deriving Repr

structure MonoBinding where
  name : Identifier
  ty : MonoTy
  rename : Identifier
  deriving Repr

structure MValueParameter where
  name : Identifier
  ty : MonoTy
  deriving Repr

inductive MExpr
  | nilConstant
  | boolConstant (value : Bool)
  | intConstant (value : String)
  | floatConstant (value : String)
  | stringConstant (value : String)
  | constVar (name : QIdent) (ty : MonoTy)
  | paramVar (name : Identifier) (ty : MonoTy)
  | localVar (name : Identifier) (ty : MonoTy)
  | temporary (name : Identifier) (ty : MonoTy)
  | genericFunVar (id : MonoId) (ty : MonoTy)
  | concreteFunVar (id : DeclId) (ty : MonoTy)
  | concreteFuncall (id : DeclId) (name : QIdent) (args : List MExpr) (rt : MonoTy)
  | genericFuncall (id : MonoId) (args : List MExpr) (rt : MonoTy)
  | concreteMethodCall (id : InsMethId) (name : QIdent) (args : List MExpr) (rt : MonoTy)
  | genericMethodCall (id : InsMethId) (monoId : MonoId) (args : List MExpr) (rt : MonoTy)
  | fptrCall (name : Identifier) (args : List MExpr) (rt : MonoTy)
  | cast (expr : MExpr) (ty : MonoTy)
  | comparison (operator : ComparisonOperator) (lhs rhs : MExpr)
  | conjunction (lhs rhs : MExpr)
  | disjunction (lhs rhs : MExpr)
  | negation (expr : MExpr)
  | ifExpression (condition consequent alternative : MExpr)
  | recordConstructor (ty : MonoTy) (args : List (Identifier × MExpr))
  | unionConstructor (ty : MonoTy) (caseName : Identifier) (args : List (Identifier × MExpr))
  | embed (ty : MonoTy) (template : String) (args : List MExpr)
  | deref (expr : MExpr)
  | typecast (expr : MExpr) (ty : MonoTy)
  | sizeOf (ty : MonoTy)
  | slotAccessor (expr : MExpr) (slotName : Identifier) (ty : MonoTy)
  | pointerSlotAccessor (expr : MExpr) (slotName : Identifier) (ty : MonoTy)
  | arrayIndex (expr index : MExpr) (ty : MonoTy)
  | spanIndex (expr index : MExpr) (ty : MonoTy)
  deriving Repr

structure MTypedWhen (Stmt : Type) where
  name : Identifier
  bindings : List MonoBinding
  body : Stmt
  deriving Repr

inductive MStmt
  | skip
  | letStmt (name : Identifier) (ty : MonoTy) (body : MStmt)
  | destructure (bindings : List MonoBinding) (value : MExpr) (body : MStmt)
  | assign (lvalue value : MExpr)
  | assignVar (name : QIdent) (value : MExpr)
  | initialAssign (name : QIdent) (value : MExpr)
  | ifStmt (condition : MExpr) (consequent alternative : MStmt)
  | caseStmt (scrutinee : MExpr) (whens : List (MTypedWhen MStmt)) (kind : CaseRef)
  | whileStmt (condition : MExpr) (body : MStmt)
  | forStmt (name : Identifier) (start final : MExpr) (body : MStmt)
  | borrow (original rename region : Identifier) (origType refType : MonoTy) (body : MStmt)
      (mode : BorrowStmtKind)
  | block (first second : MStmt)
  | discarding (value : MExpr)
  | returnStmt (value : MExpr)
  | letTmp (name : Identifier) (ty : MonoTy) (value : MExpr)
  | assignTmp (name : Identifier) (value : MExpr)
  deriving Repr

structure ConcreteMethod where
  id : InsMethId
  name : Identifier
  params : List MValueParameter
  rt : MonoTy
  body : MStmt
  deriving Repr

inductive MDecl
  | constant (id : DeclId) (name : Identifier) (ty : MonoTy) (value : MExpr)
  | record (id : DeclId) (name : Identifier) (slots : List MonoSlot)
  | recordMonomorph (id : MonoId) (slots : List MonoSlot)
  | union (id : DeclId) (name : Identifier) (cases : List MonoCase)
  | unionMonomorph (id : MonoId) (cases : List MonoCase)
  | function (id : DeclId) (name : Identifier) (params : List MValueParameter) (rt : MonoTy)
      (body : MStmt)
  | functionMonomorph (id : MonoId) (params : List MValueParameter) (rt : MonoTy) (body : MStmt)
  | foreignFunction (id : DeclId) (name : Identifier) (params : List MValueParameter)
      (rt : MonoTy) (externalName : String)
  | concreteInstance (id : DeclId) (typeclassName : QIdent) (argument : MonoTy)
      (methods : List ConcreteMethod)
  | methodMonomorph (id : MonoId) (params : List MValueParameter) (rt : MonoTy) (body : MStmt)
  deriving Repr

structure MonoModule where
  name : ModuleName
  decls : List MDecl
  deriving Repr

end AustralVM
