import AustralVM.TypeMatch

/-!
# Checking the arguments of a call

How the type checker compares the arguments of a call with the parameters of
the callee, which bindings of type parameters this gives, and how the typed
call is built from them (`TypeMatch.match_type_with_value` and the call rules
of `TypeCheckExpr.ml`).
-/

namespace AustralVM

open TypeBindings

def getType : TExpr → Comp Ty
  | .nilConstant => .ok .unit
  | .boolConstant _ => .ok .boolean
  | .intConstant _ => .ok (.integer .signed .width32)
  | .floatConstant _ => .ok .doubleFloat
  | .stringConstant _ => .ok stringType
  | .constVar _ ty | .paramVar _ ty | .localVar _ ty | .funVar _ ty _ | .temporary _ ty => .ok ty
  | .funcall _ _ _ rt _ | .methodCall _ _ _ _ rt _ | .varMethodCall _ _ _ _ _ _ rt _
  | .fptrCall _ _ rt => .ok rt
  | .cast _ ty => .ok ty
  | .comparison _ _ _ | .conjunction _ _ | .disjunction _ _ | .negation _ => .ok .boolean
  | .ifExpression _ consequent _ => getType consequent
  | .recordConstructor ty _ | .unionConstructor ty _ _ | .embed ty _ _ => .ok ty
  | .deref expr => do
    match ← getType expr with
    | .readRef ty _ => return ty
    | .writeRef ty _ => return ty
    | _ =>
      internalErr ("a dereference expression was constructed whose argument is not a " ++
        "reference type.")
  | .sizeOf _ => .ok (.integer .unsigned .widthByteSize)
  | .slotAccessor _ _ ty | .pointerSlotAccessor _ _ ty | .arrayIndex _ _ ty
  | .spanIndex _ _ ty => .ok ty

/-- `Z.of_string` on the text of a literal. -/
def parseBigint (value : String) : Comp Int :=
  match integerOfText value with
  | some integer => .ok integer
  | none =>
    internalErr ("Failed to parse '" ++ value ++
      "' as a big int. This is a bug in the parser.")

def fits (signedness : Signedness) (width : IntegerWidth) (value : Int) : Bool :=
  let bits : Nat :=
    match width with
    | .width8 => 8
    | .width16 => 16
    | .width32 => 32
    | .width64 => 64
    | .widthByteSize => 8
    | .widthIndex => 64
  match signedness with
  | .unsigned => 0 ≤ value && value ≤ 2 ^ bits - 1
  | .signed => -(2 ^ (bits - 1)) ≤ value && value ≤ 2 ^ (bits - 1) - 1

def matchIntTypeWithValue (signedness : Signedness) (width : IntegerWidth) (value : String) :
    Comp TypeBindings := do
  let integer ← parseBigint value
  if fits signedness width integer then
    return empty
  else
    australRaise .typeError
      [.text "The integer ", .code value, .text " does not fit the type ",
        .type (.integer signedness width), .text "."]

/-- Like `matchType`, but a numeric constant takes the parameter's type. -/
def matchTypeWithValue (ctx : MatchCtx) (ty : Ty) (expr : TExpr) : Comp TypeBindings :=
  match ty, expr with
  | .integer signedness width, .intConstant value
  | .integer signedness width, .cast (.intConstant value) _ =>
    matchIntTypeWithValue signedness width value
  | .singleFloat, .floatConstant _ | .singleFloat, .cast (.floatConstant _) _
  | .doubleFloat, .floatConstant _ | .doubleFloat, .cast (.floatConstant _) _ => .ok empty
  | ty, expr => do matchType ctx ty (← getType expr)

/-- The type an argument is passed at: a numeric constant takes the type of its
parameter. -/
def argumentTy (ty : Ty) (expr : TExpr) : Comp Ty :=
  match ty, expr with
  | .integer _ _, .intConstant _ | .integer _ _, .cast (.intConstant _) _
  | .singleFloat, .floatConstant _ | .singleFloat, .cast (.floatConstant _) _
  | .doubleFloat, .floatConstant _ | .doubleFloat, .cast (.floatConstant _) _ => .ok ty
  | _, expr => getType expr

def callWrongArity (name : Identifier) (expected actual : Nat) : Comp Unit :=
  australRaise .typeError
    [.text "The callable ", .code name.string, .text " expects ", .text (toString expected),
      .text " argument", .text (if expected = 1 then " " else "s "), .text "but ",
      .text (toString actual), .text (if actual = 1 then " was " else " were "), .text "given."]

def checkArity (name : Identifier) (params : List ValueParameter) (args : List TExpr) :
    Comp Unit :=
  if params.length = args.length then
    .ok ()
  else
    callWrongArity name params.length args.length

/-- Match each argument against its parameter, merging the bindings on the way. -/
def checkArguments (ctx : MatchCtx) (bindings : TypeBindings) :
    List ValueParameter → List TExpr → Comp TypeBindings
  | param :: params, arg :: args => do
    let bindings' ← mergeBindings bindings (← matchTypeWithValue ctx param.ty arg)
    checkArguments ctx bindings' params args
  | [], [] => .ok bindings
  | _, _ => internalErr "couldn't check argument list"

def checkArgumentList (ctx : MatchCtx) (name : Identifier) (params : List ValueParameter)
    (args : List TExpr) : Comp TypeBindings := do
  checkArity name params args
  checkArguments ctx empty params args

end AustralVM
