import AustralVM.LiquidParse
import AustralVM.TypedAst

/-!
# Terms of the logic for expressions

`LiquidInfer.term_of`: the term that an expression is written as in a goal.  A local
variable or a temporary stands for the expression that the environment binds it to,
which is written out with the same environment; what has no term is not stated.
-/

namespace AustralVM.Liquid

/-- The expressions that names stand for, the latest first. -/
abbrev TempEnv := List (String × TExpr)

/-- A term and the variables in it, if there is one. -/
abbrev Rendering := Option (Term × List String)

/-- `int_of_string_opt`: the native integers of OCaml have 63 bits. -/
def intOfString (text : String) : Option Int :=
  match integerOfText text with
  | some value => if intMin ≤ value ∧ value ≤ intMax then some value else none
  | none => none

def pervasiveModuleName : ModuleName := ⟨"Austral.Pervasive"⟩

/-- What follows the last point of a text, if anything does. -/
def afterLastPoint (text : String) : String :=
  let rest := (text.toList.reverse.takeWhile (· ≠ '.')).reverse
  if '.' ∈ text.toList ∧ rest ≠ [] then String.ofList rest else text

inductive Arithmetic
  | add
  | sub
  | mul
  deriving DecidableEq, Repr

def Arithmetic.term : Arithmetic → Term → Term → Term
  | .add => .add
  | .sub => .sub
  | .mul => .mul

/-- The operation that a pervasive function stands for.  Division has no term. -/
def arithmeticOperation (name : SIdent) : Option Arithmetic :=
  if name.moduleName ≠ pervasiveModuleName then none
  else if name.name.string = "trappingAdd" then some .add
  else if name.name.string = "trappingSubtract" then some .sub
  else if name.name.string = "trappingMultiply" then some .mul
  else none

/-- `arithmetic_term`, for operands that have been rendered. -/
def arithmeticTerm (name : QIdent) : List Rendering → Rendering
  | [some (lhs, lhsVars), some (rhs, rhsVars)] =>
    (arithmeticOperation (qidentToSident name)).map fun operation =>
      (operation.term lhs rhs, lhsVars ++ rhsVars)
  | _ => none

/-- A symbol applied to rendered arguments; all of them must have a term. -/
def callTerm (symbol : String) (args : List Rendering) : Rendering :=
  (args.mapM id).map fun args => (.call symbol (args.map Prod.fst), args.flatMap Prod.snd)

section

variable (resolve : String → Option Rendering)

def renderVariable (name : String) : Rendering :=
  match resolve name with
  | some binding => binding
  | none => some (.var name none, [name])

mutual

/-- The term of an expression, given those of the names that are bound. -/
def render : TExpr → Rendering
  | .intConstant text => (intOfString text).map fun value => (.int value, [])
  | .boolConstant value => some (.bool value, [])
  | .temporary name _ | .localVar name _ => renderVariable resolve name.string
  | .paramVar name _ => some (.var name.string none, [name.string])
  | .constVar name _ =>
    let last := afterLastPoint (qidentDebugName name)
    some (.var last none, [last])
  | .negation expr => (render expr).map fun (term, vars) => (.neg term, vars)
  | .cast expr _ | .deref expr => render expr
  | .funcall _ name args _ _ =>
    (arithmeticTerm name (renders args)).or (callTerm name.original.string (renders args))
  | .methodCall _ name _ args _ _ => arithmeticTerm name (renders args)
  | .slotAccessor expr slot _ => callTerm ("__slot_" ++ slot.string) [render expr]
  | .arrayIndex expr index _ | .spanIndex expr index _ =>
    callTerm "__index" [render expr, render index]
  | _ => none

def renders : List TExpr → List Rendering
  | [] => []
  | expr :: exprs => render expr :: renders exprs

end

end

/-- `term_of`, to a depth of bound names.  Where a name leads back to itself the source
does not come to an end. -/
def termAt (temps : TempEnv) : Nat → TExpr → Rendering
  | 0 => render fun name => (temps.lookup name).map fun _ => none
  | depth + 1 => render fun name => (temps.lookup name).map (termAt temps depth)

/-- A chain of names without a repetition is no longer than the environment. -/
def termOf (temps : TempEnv) (expr : TExpr) : Rendering := termAt temps temps.length expr

theorem termOf_negation (temps : TempEnv) (expr : TExpr) : termOf temps (.negation expr) =
    (termOf temps expr).map fun (term, vars) => (.neg term, vars) := by
  unfold termOf
  cases temps.length with
  | zero | succ =>
    unfold termAt
    rw [render]

end AustralVM.Liquid
