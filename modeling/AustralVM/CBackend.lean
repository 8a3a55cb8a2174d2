import AustralVM.MonoAst

/-!
# The C backend

The C syntax of `CRepr.ml`, as far as function bodies use it, and the translation
of monomorphic types, expressions and statements in `CodeGen.ml`.  The counter of
fresh variables is passed along.
-/

namespace AustralVM

/-! ## C syntax -/

inductive CTy
  | namedType (name : String)
  | pointer (ty : CTy)
  deriving DecidableEq, Repr

inductive CExpr
  | bool (value : Bool)
  | int (text : String)
  | float (text : String)
  | string (text : String)
  | var (name : String)
  | funcall (name : String) (args : List CExpr)
  | fptrCall (function : CExpr) (rt : CTy) (argTys : List CTy) (args : List CExpr)
  | cast (expr : CExpr) (ty : CTy)
  | comparison (operator : ComparisonOperator) (lhs rhs : CExpr)
  | conjunction (lhs rhs : CExpr)
  | disjunction (lhs rhs : CExpr)
  | negation (expr : CExpr)
  | ifExpression (condition consequent alternative : CExpr)
  | structInitializer (fields : List (String × CExpr))
  | structAccessor (expr : CExpr) (slot : String)
  | pointerStructAccessor (expr : CExpr) (slot : String)
  | addressOf (expr : CExpr)
  | embed (ty : CTy) (template : String) (args : List CExpr)
  | deref (expr : CExpr)
  | sizeOf (ty : CTy)
  deriving Repr

inductive CStmt
  | letStmt (name : String) (ty : CTy) (value : Option CExpr)
  | assign (lvalue value : CExpr)
  | discarding (value : CExpr)
  | ifStmt (condition : CExpr) (consequent alternative : CStmt)
  | switch (value : CExpr) (cases : List (CExpr × CStmt))
  | whileStmt (condition : CExpr) (body : CStmt)
  | forStmt (name : String) (final : CExpr) (body : CStmt)
  | returnStmt (value : CExpr)
  /-- Statements one after another, without braces. -/
  | block (stmts : List CStmt)
  | explicitBlock (stmts : List CStmt)
  deriving Repr

/-! ## Names and types -/

def genIdent (name : Identifier) : String := name.string

/-- Dots of a module's name become double underscores. -/
def genModuleName (name : ModuleName) : String :=
  String.join (name.string.toList.map fun letter =>
    if letter = '.' then "__" else String.singleton letter)

def genQident (name : QIdent) : String :=
  genModuleName name.source ++ "____" ++ genIdent name.original

def genDeclId (id : DeclId) : String := "decl_" ++ toString id.index

def genMonoId (id : MonoId) : String := "mono_" ++ toString id.index

def genInsMethId (id : InsMethId) : String := "meth_" ++ toString id.index

def fnType : CTy := .namedType "au_fnptr_t"

def genIntegerType (signedness : Signedness) (width : IntegerWidth) : String :=
  let sign := match signedness with
    | .unsigned => "au_nat"
    | .signed => "au_int"
  match width with
  | .width8 => sign ++ "8_t"
  | .width16 => sign ++ "16_t"
  | .width32 => sign ++ "32_t"
  | .width64 => sign ++ "64_t"
  | .widthByteSize => "size_t"
  | .widthIndex => "au_index_t"

def genType : MonoTy → Comp CTy
  | .unit => pure (.namedType "au_unit_t")
  | .boolean => pure (.namedType "au_bool_t")
  | .integer signedness width => pure (.namedType (genIntegerType signedness width))
  | .singleFloat => pure (.namedType "float")
  | .doubleFloat => pure (.namedType "double")
  | .namedType id => pure (.namedType (genMonoId id))
  | .regionTy _ => pure (.namedType "au_region_t")
  | .readRef ty _ | .writeRef ty _ | .address ty | .pointer ty => .pointer <$> genType ty
  | .span _ _ | .spanMut _ _ => pure (.namedType "au_span_t")
  | .fnPtr _ _ => pure fnType
  | .regionTyVar _ _ => internalErr "Invalid C type"

/-! ## Expressions -/

def referencedType : MonoTy → Comp MonoTy
  | .readRef ty _ | .writeRef ty _ => pure ty
  | _ => internalErr
      "a dereference expression was constructed whose argument is not a reference type."

/-- The type of an expression, as `MtastUtil.get_type` reads it off. -/
def MExpr.getType : MExpr → Comp MonoTy
  | .nilConstant => pure .unit
  | .boolConstant _ => pure .boolean
  | .intConstant _ => pure (.integer .signed .width32)
  | .floatConstant _ => pure .doubleFloat
  | .stringConstant _ => err "Type of the string constant"
  | .constVar _ ty | .paramVar _ ty | .localVar _ ty | .temporary _ ty => pure ty
  | .genericFunVar _ ty | .concreteFunVar _ ty => pure ty
  | .concreteFuncall _ _ _ ty | .genericFuncall _ _ ty => pure ty
  | .concreteMethodCall _ _ _ ty | .genericMethodCall _ _ _ ty | .fptrCall _ _ ty => pure ty
  | .cast _ ty => pure ty
  | .comparison _ _ _ | .conjunction _ _ | .disjunction _ _ | .negation _ => pure .boolean
  | .ifExpression _ consequent _ => consequent.getType
  | .recordConstructor ty _ | .unionConstructor ty _ _ | .embed ty _ _ => pure ty
  | .deref expr => expr.getType >>= referencedType
  | .typecast _ ty => pure ty
  | .sizeOf _ => pure (.integer .unsigned .width64)
  | .slotAccessor _ _ ty | .pointerSlotAccessor _ _ ty => pure ty
  | .arrayIndex _ _ ty | .spanIndex _ _ ty => pure ty

def unionTypeId : MonoTy → Comp MonoId
  | .namedType id | .readRef (.namedType id) _ | .writeRef (.namedType id) _ => pure id
  | _ => internalErr "Union is not a named type?"

def unionTagEnumName (id : MonoId) : String := genMonoId id ++ "_tag"

def unionTagValue (ty : MonoTy) (caseName : Identifier) : Comp CExpr := do
  let id ← unionTypeId ty
  pure (.var (unionTagEnumName id ++ "_" ++ genIdent caseName))

/-- The type of the elements that an index expression refers to. -/
def elementType : MonoTy → Comp MonoTy
  | .readRef ty _ | .writeRef ty _ => pure ty
  | _ => internalErr "Internal error"

/-- A reference to an element of an array or span. -/
def arrayIndexCall (array index : CExpr) (ty : CTy) : CExpr :=
  .cast (.funcall "au_array_index" [array, index, .sizeOf ty]) (.pointer ty)

mutual

def genExp : MExpr → Comp CExpr
  | .nilConstant => pure (.bool false)
  | .boolConstant value => pure (.bool value)
  | .intConstant text => pure (.int text)
  | .floatConstant text => pure (.float text)
  | .stringConstant text =>
    pure (.funcall "au_make_span_from_string"
      [.string text, .int (toString text.utf8ByteSize)])
  | .constVar name _ => pure (.var (genQident name))
  | .paramVar name _ | .localVar name _ | .temporary name _ => pure (.var (genIdent name))
  | .genericFunVar id _ => pure (.cast (.var (genMonoId id)) fnType)
  | .concreteFunVar id _ => pure (.cast (.var (genDeclId id)) fnType)
  | .concreteFuncall id _ args _ => do pure (.funcall (genDeclId id) (← genExps args))
  | .genericFuncall id args _ => do pure (.funcall (genMonoId id) (← genExps args))
  | .concreteMethodCall id _ args _ => do pure (.funcall (genInsMethId id) (← genExps args))
  | .genericMethodCall _ id args _ => do pure (.funcall (genMonoId id) (← genExps args))
  | .fptrCall name args ty => do
    let argTys ← args.mapM MExpr.getType
    let rt ← genType ty
    let cArgTys ← argTys.mapM genType
    pure (.fptrCall (.var (genIdent name)) rt cArgTys (← genExps args))
  | .cast expr ty | .typecast expr ty => do pure (.cast (← genExp expr) (← genType ty))
  | .comparison operator lhs rhs => do
    pure (.comparison operator (← genExp lhs) (← genExp rhs))
  | .conjunction lhs rhs => do pure (.conjunction (← genExp lhs) (← genExp rhs))
  | .disjunction lhs rhs => do pure (.disjunction (← genExp lhs) (← genExp rhs))
  | .negation expr => do pure (.negation (← genExp expr))
  | .ifExpression condition consequent alternative => do
    pure (.ifExpression (← genExp condition) (← genExp consequent) (← genExp alternative))
  | .recordConstructor ty fields => do
    pure (.cast (.structInitializer (← genFields fields)) (← genType ty))
  | .unionConstructor ty caseName fields => do
    let args : CExpr := .structInitializer (← genFields fields)
    let data : CExpr := .structInitializer [(genIdent caseName, args)]
    pure (.cast (.structInitializer [("tag", ← unionTagValue ty caseName), ("data", data)])
      (← genType ty))
  | .embed ty template args => do pure (.embed (← genType ty) template (← genExps args))
  | .deref expr => do pure (.deref (← genExp expr))
  | .sizeOf ty => do pure (.sizeOf (← genType ty))
  | .slotAccessor expr slot _ => do
    pure (.addressOf (.structAccessor (.deref (← genExp expr)) (genIdent slot)))
  | .pointerSlotAccessor expr slot _ => do
    pure (.addressOf (.pointerStructAccessor (.deref (← genExp expr)) (genIdent slot)))
  | .arrayIndex expr index ty => do
    pure (arrayIndexCall (← genExp expr) (← genExp index) (← genType (← elementType ty)))
  | .spanIndex expr index ty => do
    pure (arrayIndexCall (.addressOf (← genExp expr)) (← genExp index)
      (← genType (← elementType ty)))

def genExps : List MExpr → Comp (List CExpr)
  | [] => pure []
  | expr :: exprs => do pure ((← genExp expr) :: (← genExps exprs))

def genFields : List (Identifier × MExpr) → Comp (List (String × CExpr))
  | [] => pure []
  | (name, expr) :: fields => do pure ((genIdent name, ← genExp expr) :: (← genFields fields))

end

/-! ## Statements -/

/-- Generation of statements: it counts fresh variables. -/
abbrev CGen (α : Type) := StateT Nat Comp α

namespace CGen

variable {α β : Type} {counter next : Nat}

theorem bind_eq_ok {second : α → CGen β} : (first >>= second) counter = .ok (result, next) ↔
      ∃ value after, first counter = .ok (value, after) ∧
        second value after = .ok (result, next) := by
  change Except.bind (first counter) _ = _ ↔ _
  cases first counter with
  | error => simp [Except.bind]
  | ok pair =>
    obtain ⟨_, _⟩ := pair
    simp [Except.bind]

theorem liftM_eq_ok {computation : Comp α} :
    (liftM computation : CGen α) counter = .ok (result, next) ↔
      computation = .ok result ∧ counter = next := by
  change Except.bind computation _ = _ ↔ _
  cases computation with
  | error => simp [Except.bind]
  | ok => simp [Except.bind, pure, Except.pure]

theorem pure_eq_ok :
    (pure value : CGen α) counter = .ok (result, next) ↔ value = result ∧ counter = next := by
  change Except.ok (value, counter) = _ ↔ _
  rw [Except.ok.injEq, Prod.mk.injEq]

end CGen

def newVariable : CGen String := fun counter => pure ("tmp" ++ toString counter, counter + 1)

/-- A borrowed variable: an address is copied, a borrow takes the address of the
original and a reborrow copies the reference. -/
def genBorrow (original : Identifier) (origType : MonoTy) (mode : BorrowStmtKind) :
    Comp (CTy × CExpr) := do
  let ty ← genType origType
  match origType with
  | .address _ => pure (ty, .var (genIdent original))
  | _ =>
    match mode with
    | .read | .write => pure (.pointer ty, .addressOf (.var (genIdent original)))
    | .reborrow => pure (ty, .var (genIdent original))

/-- The binding of a slot of a destructured record. -/
def genSlotBinding (tmp : String) (binding : MonoBinding) : Comp CStmt := do
  pure (.letStmt (genIdent binding.rename) (← genType binding.ty)
    (some (.structAccessor (.var tmp) (genIdent binding.name))))

/-- The slot of a case that a binding is bound to, or its address. -/
def genCaseBinding (tmp : String) (kind : CaseRef) (caseName : Identifier)
    (binding : MonoBinding) : Comp CStmt := do
  let ty ← genType binding.ty
  let slotOf (union : CExpr) : CExpr :=
    .structAccessor (.structAccessor (.structAccessor union "data") (genIdent caseName))
      (genIdent binding.name)
  match kind with
  | .casePlain => pure (.letStmt (genIdent binding.rename) ty (some (slotOf (.var tmp))))
  | .caseRef =>
    pure (.letStmt (genIdent binding.rename) (.pointer ty)
      (some (.addressOf (slotOf (.deref (.var tmp))))))

/-- The tag of the union in a variable, or that the variable points to. -/
def tagAccessor (tmp : String) : CaseRef → CExpr
  | .casePlain => .structAccessor (.var tmp) "tag"
  | .caseRef => .pointerStructAccessor (.var tmp) "tag"

mutual

def genStmt : MStmt → CGen CStmt
  | .skip => pure (.block [])
  | .letStmt name ty body => do
    let ty ← genType ty
    let body ← genStmt body
    pure (.block [.letStmt (genIdent name) ty none, body])
  | .destructure bindings value body => do
    let tmp ← newVariable
    let ty ← genType (← value.getType)
    let value ← genExp value
    let lets ← (bindings.mapM (genSlotBinding tmp) : Comp (List CStmt))
    let body ← genStmt body
    pure (.block ([.letStmt tmp ty (some value)] ++ lets ++ [body]))
  | .assign lvalue value => do
    pure (.assign (.deref (← genExp lvalue)) (← genExp value))
  | .assignVar name value | .initialAssign name value => do
    pure (.assign (.var (genIdent name.localName)) (← genExp value))
  | .letTmp name ty value => do
    pure (.letStmt (genIdent name) (← genType ty) (some (← genExp value)))
  | .assignTmp name value => do
    pure (.assign (.var (genIdent name)) (← genExp value))
  | .ifStmt condition consequent alternative => do
    -- the arguments of a constructor are evaluated from the right
    let alternative ← genStmt alternative
    let consequent ← genStmt consequent
    pure (.ifStmt (← genExp condition) consequent alternative)
  | .caseStmt scrutinee whens kind => do
    let ty ← scrutinee.getType
    let tmp ← newVariable
    let cases ← genWhens ty tmp kind whens
    pure (.block [.letStmt tmp (← genType ty) (some (← genExp scrutinee)),
      .switch (tagAccessor tmp kind) cases])
  | .whileStmt condition body => do
    let body ← genStmt body
    pure (.whileStmt (← genExp condition) body)
  | .forStmt name start final body => do
    let body ← genStmt body
    pure (.explicitBlock [
      .letStmt (genIdent name) (.namedType "size_t") (some (← genExp start)),
      .forStmt (genIdent name) (← genExp final) body])
  | .borrow original rename _ origType _ body mode => do
    let (ty, value) ← genBorrow original origType mode
    let body ← genStmt body
    pure (.block [.letStmt (genIdent rename) ty (some value), body])
  | .block first second => do
    let second ← genStmt second
    let first ← genStmt first
    pure (.block [first, second])
  | .discarding value => do pure (.discarding (← genExp value))
  | .returnStmt value => do pure (.returnStmt (← genExp value))

def genWhens (ty : MonoTy) (tmp : String) (kind : CaseRef) :
    List (MTypedWhen MStmt) → CGen (List (CExpr × CStmt))
  | [] => pure []
  | ⟨name, bindings, body⟩ :: whens => do
    let tag ← unionTagValue ty name
    let lets ← (bindings.mapM (genCaseBinding tmp kind name) : Comp (List CStmt))
    let body ← genStmt body
    let cases ← genWhens ty tmp kind whens
    pure ((tag, .explicitBlock (lets ++ [body])) :: cases)

end

end AustralVM
