import AustralVM.TypeSyntax

/-!
# The refinement language

Contracts are written in a small logic of integer terms: `LiquidTypes` has its
sorts, terms and formulas, the names a formula mentions and the substitution of
terms for names.  Positions in the text of a contract are left out.
-/

namespace AustralVM.Liquid

inductive TrlSort
  | int
  | nat
  | bool
  | real
  | prob
  | list (element : TrlSort)
  | adt (name : String)
  deriving DecidableEq, Repr

/-- A refinement term.  A real literal is kept as it is written. -/
inductive Term
  | int (value : Int)
  | real (literal : String)
  | bool (value : Bool)
  | var (name : String) (sort : Option TrlSort)
  | add (lhs rhs : Term)
  | sub (lhs rhs : Term)
  | mul (lhs rhs : Term)
  | neg (operand : Term)
  | ite (condition consequent alternative : Term)
  | call (name : String) (args : List Term)
  deriving Repr

mutual

inductive IndexedTy
  | sort (sort : TrlSort)
  | app (name : String) (args : List TyArg)

inductive TyArg
  | ty (ty : IndexedTy)
  | index (term : Term)

end

inductive Relop
  | eq
  | ne
  | lt
  | le
  | gt
  | ge
  deriving DecidableEq, Repr

inductive Formula
  | true
  | false
  | rel (op : Relop) (lhs rhs : Term)
  | not (operand : Formula)
  | and (lhs rhs : Formula)
  | or (lhs rhs : Formula)
  | implies (lhs rhs : Formula)
  /-- A type annotation, not a relation. -/
  | ty (term : Term) (ty : IndexedTy)

inductive ContractKind
  | requires
  | ensures
  | invariant
  | trusted
  | measure
  | fold
  deriving DecidableEq, Repr

namespace ContractKind

def toString : ContractKind → String
  | .requires => "Requires"
  | .ensures => "Ensures"
  | .invariant => "Invariant"
  | .trusted => "Trusted"
  | .measure => "Measure"
  | .fold => "Fold"

def ofString (name : String) : Option ContractKind :=
  if name = "Requires" then some .requires
  else if name = "Ensures" then some .ensures
  else if name = "Invariant" then some .invariant
  else if name = "Trusted" then some .trusted
  else if name = "Measure" then some .measure
  else if name = "Fold" then some .fold
  else none

end ContractKind

/-- A parsed contract.  The marker kinds have no formula. -/
structure Contract where
  kind : ContractKind
  source : String
  formula : Option Formula

/-! ## Names in terms and formulas -/

/-- Add a name at the front, unless it is there or is the result. -/
def addFree (acc : List String) (name : String) : List String :=
  if name ∈ acc ∨ name = "result" then acc else name :: acc

mutual

def freeVarsTerm (acc : List String) : Term → List String
  | .int _ | .real _ | .bool _ => acc
  | .var name _ => addFree acc name
  | .add lhs rhs | .sub lhs rhs | .mul lhs rhs => freeVarsTerm (freeVarsTerm acc lhs) rhs
  | .neg operand => freeVarsTerm acc operand
  | .ite condition consequent alternative =>
    freeVarsTerm (freeVarsTerm (freeVarsTerm acc condition) consequent) alternative
  | .call _ args => freeVarsTerms acc args

def freeVarsTerms (acc : List String) : List Term → List String
  | [] => acc
  | term :: terms => freeVarsTerms (freeVarsTerm acc term) terms

end

mutual

def freeVarsTy (acc : List String) : IndexedTy → List String
  | .sort _ => acc
  | .app _ args => freeVarsTyArgs acc args

def freeVarsTyArg (acc : List String) : TyArg → List String
  | .ty ty => freeVarsTy acc ty
  | .index term => freeVarsTerm acc term

def freeVarsTyArgs (acc : List String) : List TyArg → List String
  | [] => acc
  | arg :: args => freeVarsTyArgs (freeVarsTyArg acc arg) args

end

def unionNames (first second : List String) : List String := second.foldl addFree first

def freeVars : Formula → List String
  | .true | .false => []
  | .rel _ lhs rhs => freeVarsTerm (freeVarsTerm [] lhs) rhs
  | .not operand => freeVars operand
  | .and lhs rhs | .or lhs rhs | .implies lhs rhs => unionNames (freeVars lhs) (freeVars rhs)
  | .ty term ty => freeVarsTy (freeVarsTerm [] term) ty

/-- The names of a formula that are not in scope. -/
def checkWf1 (formula : Formula) (bound : List String) : List String :=
  (freeVars formula).filter fun name => name ∉ bound

/-! ## Substitution -/

mutual

/-- Replace names by terms; there are no binders. -/
def substTerm (terms : List (String × Term)) : Term → Term
  | .int value => .int value
  | .real literal => .real literal
  | .bool value => .bool value
  | .var name sort => (terms.lookup name).getD (.var name sort)
  | .add lhs rhs => .add (substTerm terms lhs) (substTerm terms rhs)
  | .sub lhs rhs => .sub (substTerm terms lhs) (substTerm terms rhs)
  | .mul lhs rhs => .mul (substTerm terms lhs) (substTerm terms rhs)
  | .neg operand => .neg (substTerm terms operand)
  | .ite condition consequent alternative =>
    .ite (substTerm terms condition) (substTerm terms consequent) (substTerm terms alternative)
  | .call name args => .call name (substTerms terms args)

def substTerms (terms : List (String × Term)) : List Term → List Term
  | [] => []
  | term :: rest => substTerm terms term :: substTerms terms rest

end

mutual

def substTy (terms : List (String × Term)) : IndexedTy → IndexedTy
  | .sort sort => .sort sort
  | .app name args => .app name (substTyArgs terms args)

def substTyArg (terms : List (String × Term)) : TyArg → TyArg
  | .ty ty => .ty (substTy terms ty)
  | .index term => .index (substTerm terms term)

def substTyArgs (terms : List (String × Term)) : List TyArg → List TyArg
  | [] => []
  | arg :: args => substTyArg terms arg :: substTyArgs terms args

end

def substFormula (terms : List (String × Term)) : Formula → Formula
  | .true => .true
  | .false => .false
  | .rel op lhs rhs => .rel op (substTerm terms lhs) (substTerm terms rhs)
  | .not operand => .not (substFormula terms operand)
  | .and lhs rhs => .and (substFormula terms lhs) (substFormula terms rhs)
  | .or lhs rhs => .or (substFormula terms lhs) (substFormula terms rhs)
  | .implies lhs rhs => .implies (substFormula terms lhs) (substFormula terms rhs)
  | .ty term ty => .ty (substTerm terms term) (substTy terms ty)

structure Qualifier where
  name : String
  args : List String
  body : Formula
  span : String

end AustralVM.Liquid
