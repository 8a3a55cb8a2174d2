import Mathlib.Data.List.Basic
import Mathlib.Algebra.Order.Ring.Nat

/-!
# Identifiers and types of the compiler

The names and types every pass of the front end works on: identifiers, the
qualified names that imports resolve to, universes, type variables and the
types themselves.  The names follow `Identifier.ml`, `Id.ml`, `Region.ml` and
`Type.ml`; source spans and printing are left out.
-/

namespace AustralVM

structure Identifier where
  string : String
  deriving DecidableEq, Repr

structure ModuleName where
  string : String
  deriving DecidableEq, Repr

/-- A declaration name together with the module that declares it. -/
structure SIdent where
  moduleName : ModuleName
  name : Identifier
  deriving DecidableEq, Repr

/-- A name after import resolution: where it comes from, what it is called
there, and what it is called here. -/
structure QIdent where
  source : ModuleName
  original : Identifier
  localName : Identifier
  deriving DecidableEq, Repr

/-- Two qualified names are the same declaration whatever their local alias. -/
def equalQident (first second : QIdent) : Bool :=
  first.source = second.source && first.original = second.original

def qidentToSident (name : QIdent) : SIdent :=
  ⟨name.source, name.original⟩

def qidentDebugName (name : QIdent) : String :=
  if name.original.string = name.localName.string then
    name.source.string ++ "::" ++ name.original.string
  else
    name.source.string ++ "::" ++ name.original.string ++ "(local=" ++ name.localName.string ++ ")"

structure ModId where
  index : Nat
  deriving DecidableEq, Repr

structure DeclId where
  index : Nat
  deriving DecidableEq, Repr

structure InsMethId where
  index : Nat
  deriving DecidableEq, Repr

structure MonoId where
  index : Nat
  deriving DecidableEq, Repr

structure Region where
  index : Nat
  deriving DecidableEq, Repr

def staticRegion : Region := ⟨0⟩

inductive Universe
  | free
  | linear
  | type
  | region
  deriving DecidableEq, Repr

inductive IntegerWidth
  | width8
  | width16
  | width32
  | width64
  | widthByteSize
  | widthIndex
  deriving DecidableEq, Repr

inductive Signedness
  | unsigned
  | signed
  deriving DecidableEq, Repr

/-- A type variable: its name, its universe, the declaration that binds it
and the typeclasses its instances have to implement. -/
structure TypeVar where
  name : Identifier
  univ : Universe
  source : QIdent
  constraints : List SIdent
  deriving DecidableEq, Repr

/-- A type parameter has the same data as the variable it binds. -/
structure TypeParameter where
  name : Identifier
  univ : Universe
  source : QIdent
  constraints : List SIdent
  deriving DecidableEq, Repr

def typaramToTyvar (typaram : TypeParameter) : TypeVar :=
  ⟨typaram.name, typaram.univ, typaram.source, typaram.constraints⟩

def tyvarToTyparam (tyvar : TypeVar) : TypeParameter :=
  ⟨tyvar.name, tyvar.univ, tyvar.source, tyvar.constraints⟩

@[simp]
theorem tyvarToTyparam_inj : tyvarToTyparam first = tyvarToTyparam second ↔ first = second := by
  cases first
  cases second
  simp [tyvarToTyparam]

inductive Ty
  | unit
  | boolean
  | integer (signedness : Signedness) (width : IntegerWidth)
  | singleFloat
  | doubleFloat
  | namedType (name : QIdent) (args : List Ty) (univ : Universe)
  | regionTy (region : Region)
  | readRef (ty region : Ty)
  | writeRef (ty region : Ty)
  | span (ty region : Ty)
  | spanMut (ty region : Ty)
  | tyVar (tyvar : TypeVar)
  | address (ty : Ty)
  | pointer (ty : Ty)
  | fnPtr (args : List Ty) (rt : Ty)
  | monoTy (id : MonoId)
  deriving Repr

namespace Ty

def parts : Ty → List Ty
  | .namedType _ args _ => args
  | .readRef ty region | .writeRef ty region | .span ty region | .spanMut ty region => [ty, region]
  | .address ty | .pointer ty => [ty]
  | .fnPtr args rt => rt :: args
  | _ => []

theorem sizeOf_lt_of_mem_parts {part ty : Ty} (member : part ∈ ty.parts) :
    sizeOf part < sizeOf ty := by
  cases ty with simp [parts] at member ⊢
  | namedType =>
    have := List.sizeOf_lt_of_mem member
    omega
  | fnPtr =>
    have := member.imp_right List.sizeOf_lt_of_mem
    grind
  | _ => grind

theorem induction_parts {motive : Ty → Prop}
    (step : ∀ ty : Ty, (∀ part ∈ ty.parts, motive part) → motive ty) (ty : Ty) : motive ty :=
  step ty fun part member =>
    have := sizeOf_lt_of_mem_parts member
    induction_parts step part

mutual
/-- The size of a type, by which the matcher's recursion decreases.  A function
pointer counts one more than the list of its return and argument types. -/
def size : Ty → Nat
  | .namedType _ args _ => 1 + sizeList args
  | .readRef ty region | .writeRef ty region | .span ty region | .spanMut ty region =>
    1 + ty.size + region.size
  | .address ty | .pointer ty => 1 + ty.size
  | .fnPtr args rt => 2 + rt.size + sizeList args
  | _ => 1
/-- The size of a list of types, one more for each element. -/
def sizeList : List Ty → Nat
  | [] => 0
  | ty :: tys => 1 + ty.size + sizeList tys
end

def isTyVar : Ty → Bool
  | .tyVar _ => true
  | _ => false

end Ty

structure ValueParameter where
  name : Identifier
  ty : Ty
  deriving Repr

structure TypedSlot where
  name : Identifier
  ty : Ty
  deriving Repr

structure TypedCase where
  name : Identifier
  slots : List TypedSlot
  deriving Repr

def stringType : Ty := .span (.integer .unsigned .width8) (.regionTy staticRegion)

end AustralVM
