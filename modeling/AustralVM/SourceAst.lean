import AustralVM.TypedAst

/-!
# The source syntax tree

The tree of `Stages.Ast` and the combined modules of `Stages.Combined`, on which
the return check runs.  Type specifiers, spans and docstrings are dropped: the
check does not read them.
-/

namespace AustralVM

open List

inductive ArithmeticOperator
  | add
  | subtract
  | multiply
  | divide
  deriving DecidableEq, Repr

inductive BorrowingMode
  | readBorrow
  | writeBorrow
  deriving DecidableEq, Repr

inductive AbstractArglist (Expr : Type)
  | positional (args : List Expr)
  | named (args : List (Identifier × Expr))
  deriving Repr

def AbstractArglist.exprs {Expr : Type} : AbstractArglist Expr → List Expr
  | .positional args => args
  | .named args => args.map Prod.snd

inductive PathElem (Expr : Type)
  | slotAccessor (name : Identifier)
  | pointerSlotAccessor (name : Identifier)
  | arrayIndex (index : Expr)
  deriving Repr

/-- The index expression of a path element, if it has one. -/
def PathElem.exprs {Expr : Type} : PathElem Expr → List Expr
  | .slotAccessor _ | .pointerSlotAccessor _ => []
  | .arrayIndex index => [index]

inductive AExpr
  | nilConstant
  | boolConstant (value : Bool)
  | intConstant (value : String)
  | floatConstant (value : String)
  | stringConstant (value : String)
  | variableExpr (name : QIdent)
  | functionCall (name : QIdent) (args : AbstractArglist AExpr)
  | arithmeticExpression (operator : ArithmeticOperator) (lhs rhs : AExpr)
  | comparison (operator : ComparisonOperator) (lhs rhs : AExpr)
  | conjunction (lhs rhs : AExpr)
  | disjunction (lhs rhs : AExpr)
  | negation (expr : AExpr)
  | ifExpression (condition consequent alternative : AExpr)
  | path (head : QIdent) (elems : List (PathElem AExpr))
  | refPath (head : QIdent) (elems : List (PathElem AExpr))
  | embed (template : String) (args : List AExpr)
  | deref (expr : AExpr)
  | typecast (expr : AExpr)
  | sizeOf
  | borrowExpr (mode : BorrowingMode) (name : QIdent)
  | reborrow (name : QIdent)
  deriving Repr

structure AbstractWhen (Stmt : Type) where
  name : Identifier
  body : Stmt
  deriving Repr

inductive AStmt
  | skip
  | letStmt (mutability : Mutability) (name : Identifier) (body : AStmt)
  | destructure (mutability : Mutability) (value : AExpr) (body : AStmt)
  | assign (lvalue value : AExpr)
  | initialAssign (name : QIdent) (value : AExpr)
  | ifStmt (condition : AExpr) (consequent alternative : AStmt)
  | whenStmt (condition : AExpr) (body : AStmt)
  | caseStmt (scrutinee : AExpr) (whens : List (AbstractWhen AStmt))
  | whileStmt (condition : AExpr) (body : AStmt)
  | forStmt (name : Identifier) (initial final : AExpr) (body : AStmt)
  | borrow (original rename region : Identifier) (body : AStmt) (mode : BorrowStmtKind)
  | block (first second : AStmt)
  | discarding (value : AExpr)
  | returnStmt (value : AExpr)
  deriving Repr

structure CombinedMethodDef where
  name : Identifier
  body : AStmt
  deriving Repr

inductive CombinedDefinition
  | constant (name : Identifier)
  | record (name : Identifier)
  | union (name : Identifier)
  | function (name : Identifier) (body : AStmt) (pragmas : List Pragma)
  | typeclass (name : Identifier)
  | instanceDef (name : QIdent) (methods : List CombinedMethodDef)
  deriving Repr

structure CombinedModule where
  name : ModuleName
  decls : List CombinedDefinition
  deriving Repr

end AustralVM
