import Mathlib.Data.List.ReduceOption
import AustralVM.Environment

/-!
# Matching types and resolving instances

Matching a type that contains type variables against another type, with the
check of typeclass constraints that searches the visible instances and matches
their arguments in turn.  The search ends because an instance argument is never
a lone variable, so its own matching only reaches proper parts of the type.
-/

namespace AustralVM

open TypeBindings

/-- Where matching happens: the environment and the module it is made from. -/
structure MatchCtx where
  env : Env
  moduleName : ModuleName

def typeMismatch (expected actual : Ty) : Comp TypeBindings :=
  australRaise .typeError
    [.text "Expected a value of type ", .type expected, .text ", but got a value of type ",
      .type actual, .text "."]

def unsatisfiedConstraint (tyvar : TypeVar) (ty : Ty) (typeclassName : SIdent) : Comp Unit :=
  australRaise .typeError
    [.text "Type constraint not satisfied: the type ", .type ty,
      .text " does not implement the typeclass ", .code typeclassName.name.string, .text ".",
      .break, .text "This constraint is for the type variable ", .code tyvar.name.string,
      .text "."]

/-- The two variables have the same name, universe and provenance. -/
def sameTyVar (tyvar tyvar' : TypeVar) : Bool :=
  tyvar.name = tyvar'.name && tyvar.univ = tyvar'.univ &&
    equalQident tyvar.source tyvar'.source

/-- Every constraint of the parameter is one of the argument's. -/
def checkTyvarImplementsConstraints (param arg : List SIdent) : Bool :=
  param.all fun typeclassName => arg.contains typeclassName

def selectInstance :
    List (InstanceDecl × TypeBindings) → Comp (Option (InstanceDecl × TypeBindings))
  | [] => .ok none
  | [candidate] => .ok (some candidate)
  | _ :: _ :: _ =>
    internalErr ("Multiple instances satisfy this call. The compiler should validate that " ++
      "there are no overlapping instances.")

/-- An instance that does not match is skipped, whatever Austral error its
matching raised; other exceptions propagate. -/
def catchAustralError (inst : InstanceDecl) :
    Comp TypeBindings → Comp (Option (InstanceDecl × TypeBindings))
  | .ok bindings => .ok (some (inst, bindings))
  | .error (.australError _ _) => .ok none
  | .error .invalidArgument => .error .invalidArgument

/-- The measure of a call of the matcher: the size of the type matched against,
and room for the constraint search when the pattern is a variable. -/
def matchMeasure (a b : Ty) : Nat :=
  8 * b.size + if a.isTyVar then 5 else 0

theorem matchMeasure_le (a b : Ty) : matchMeasure a b ≤ 8 * b.size + 5 := by
  unfold matchMeasure
  split <;> omega

theorem matchMeasure_of_not_tyVar (notTyVar : a.isTyVar = false) (b : Ty) :
    matchMeasure a b = 8 * b.size := by
  simp [matchMeasure, notTyVar]

mutual
@[grind =] def matchType (ctx : MatchCtx) (a b : Ty) : Comp TypeBindings :=
  match a, b with
  | .unit, .unit => .ok empty
  | .boolean, .boolean => .ok empty
  | .integer signedness width, .integer signedness' width' =>
    if signedness = signedness' ∧ width = width' then .ok empty else typeMismatch a b
  | .singleFloat, .singleFloat => .ok empty
  | .doubleFloat, .doubleFloat => .ok empty
  | .namedType name args _, .namedType name' args' _ =>
    if name = name' then matchTypeList ctx args args' else typeMismatch a b
  | .regionTy region, .regionTy region' => if region = region' then .ok empty else typeMismatch a b
  | .readRef ty region, .readRef ty' region' => do
    mergeBindings (← matchType ctx ty ty') (← matchType ctx region region')
  | .writeRef ty region, .writeRef ty' region' => do
    mergeBindings (← matchType ctx ty ty') (← matchType ctx region region')
  | .span ty region, .span ty' region' => do
    mergeBindings (← matchType ctx ty ty') (← matchType ctx region region')
  | .spanMut ty region, .spanMut ty' region' => do
    mergeBindings (← matchType ctx ty ty') (← matchType ctx region region')
  | .tyVar tyvar, b => matchTypeVar ctx tyvar b
  | .address ty, .address ty' => matchType ctx ty ty'
  | .pointer ty, .pointer ty' => matchType ctx ty ty'
  | .fnPtr args rt, .fnPtr args' rt' => matchTypeList ctx (rt :: args) (rt' :: args')
  | .monoTy _, _ => err "match_type called with MonoTy argument"
  | a, b => typeMismatch a b
  termination_by matchMeasure a b
  decreasing_by
    all_goals
      try have patternBound := matchMeasure_le ty ty'
      try have regionBound := matchMeasure_le region region'
      simp only [matchMeasure, Ty.size, Ty.sizeList, Ty.isTyVar] at *
      grind

def matchTypeVar (ctx : MatchCtx) (tyvar : TypeVar) (ty : Ty) : Comp TypeBindings :=
  match ty with
  | .tyVar tyvar' =>
    if sameTyVar tyvar tyvar' then
      .ok empty
    else
      let _ := checkTyvarImplementsConstraints tyvar.constraints tyvar'.constraints
      empty.addBinding (tyvarToTyparam tyvar) (.tyVar tyvar')
  | ty => do
    checkTypeImplementsConstraints ctx tyvar ty tyvar.constraints
    empty.addBinding (tyvarToTyparam tyvar) ty
  termination_by 8 * ty.size + 4

def checkTypeImplementsConstraints (ctx : MatchCtx) (tyvar : TypeVar) (ty : Ty)
    (constraints : List SIdent) : Comp Unit :=
  constraints.forM fun typeclassName => tryConstraint ctx tyvar ty typeclassName
  termination_by 8 * ty.size + 3

def tryConstraint (ctx : MatchCtx) (tyvar : TypeVar) (ty : Ty) (typeclassName : SIdent) :
    Comp Unit := do
  match ← ctx.env.getDeclByName typeclassName with
  | some (.typeClass id ..) =>
    match ← getInstance ctx.env ctx.moduleName ty id with
    | some _ => return ()
    | none => unsatisfiedConstraint tyvar ty typeclassName
  | some _ =>
    internalErr "Type parameter constraint refers to a declaration which is not a typeclass."
  | none =>
    internalErr ("No typeclass with the given name. This should have been validated in the " ++
      "extraction pass.")
  termination_by 8 * ty.size + 2

def getInstance (env : Env) (sourceModuleName : ModuleName) (dispatchTy : Ty)
    (typeclass : DeclId) : Comp (Option (InstanceDecl × TypeBindings)) := do
  let _ ← env.getDeclNameOrDie typeclass
  let record ← optionGet (env.getModuleByName sourceModuleName)
  let instances ← env.visibleInstances record.id
  let candidates ← instances.mapM fun decl =>
    match decl with
    | .instanceDecl inst =>
      if inst.typeclassId = typeclass then
        catchAustralError inst
          (matchType ⟨env, sourceModuleName⟩ inst.argument dispatchTy)
      else
        .ok none
    | _ => .ok none
  selectInstance candidates.reduceOption
  termination_by 8 * dispatchTy.size + 1
  decreasing_by
    rw [matchMeasure_of_not_tyVar inst.argumentNotTyVar]
    omega

def matchTypeList (ctx : MatchCtx) (tys tys' : List Ty) : Comp TypeBindings := do
  let matched ← matchTypes ctx tys tys'
  matched.foldlM mergeBindings empty
  termination_by 8 * Ty.sizeList tys' + 1

/-- `List.map2` of `matchType`. -/
def matchTypes (ctx : MatchCtx) : List Ty → List Ty → Comp (List TypeBindings)
  | [], [] => .ok []
  | ty :: tys, ty' :: tys' => do
    let bindings ← matchType ctx ty ty'
    return bindings :: (← matchTypes ctx tys tys')
  | _, _ => .error .invalidArgument
  termination_by _ tys' => 8 * Ty.sizeList tys'
  decreasing_by
    · have headBound := matchMeasure_le ty ty'
      simp only [Ty.sizeList]
      omega
    · simp only [Ty.sizeList]
      omega
end

/-- What instance resolution makes of one visible declaration. -/
def instanceCandidate (env : Env) (sourceModuleName : ModuleName) (dispatchTy : Ty)
    (typeclass : DeclId) : Decl → Comp (Option (InstanceDecl × TypeBindings))
  | .instanceDecl inst =>
    if inst.typeclassId = typeclass then
      catchAustralError inst (matchType ⟨env, sourceModuleName⟩ inst.argument dispatchTy)
    else
      .ok none
  | _ => .ok none

variable {env : Env} {sourceModuleName : ModuleName} {dispatchTy : Ty} {typeclass : DeclId}

theorem getInstance_eq : getInstance env sourceModuleName dispatchTy typeclass = (do
    let _ ← env.getDeclNameOrDie typeclass
    let record ← optionGet (env.getModuleByName sourceModuleName)
    let instances ← env.visibleInstances record.id
    let candidates ← instances.mapM (instanceCandidate env sourceModuleName dispatchTy typeclass)
    selectInstance candidates.reduceOption) := by
  rw [getInstance]
  rfl

/-- Instance resolution in its steps: the declarations visible from the module,
what each of them gives, and the choice among them. -/
theorem getInstance_eq_ok : getInstance env sourceModuleName dispatchTy typeclass = .ok result ↔
      ∃ typeclassName record instances candidates,
        env.getDeclNameOrDie typeclass = .ok typeclassName ∧
        env.getModuleByName sourceModuleName = some record ∧
        env.visibleInstances record.id = .ok instances ∧ List.Forall₂ (fun decl candidate =>
          instanceCandidate env sourceModuleName dispatchTy typeclass decl = .ok candidate)
          instances candidates ∧ selectInstance candidates.reduceOption = .ok result := by
  rw [getInstance_eq]
  simp only [Comp.bind_eq_ok, Comp.mapM_eq_ok, Comp.optionGet_eq_ok]
  constructor
  · rintro ⟨typeclassName, named, record, moduleFound, instances, visible, candidates, each, selected⟩
    exact ⟨typeclassName, record, instances, candidates, named, moduleFound, visible, each, selected⟩
  · rintro ⟨typeclassName, record, instances, candidates, named, moduleFound, visible, each, selected⟩
    exact ⟨typeclassName, named, record, moduleFound, instances, visible, candidates, each, selected⟩

theorem selectInstance_eq_some :
    selectInstance candidates = .ok (some chosen) ↔ candidates = [chosen] := by
  match candidates with
  | [] => simp [selectInstance]
  | [candidate] => simp [selectInstance]
  | _ :: _ :: _ => simp [selectInstance]

theorem instanceCandidate_eq_some :
    instanceCandidate env sourceModuleName dispatchTy typeclass decl = .ok (some (inst, bindings)) ↔
      decl = .instanceDecl inst ∧ inst.typeclassId = typeclass ∧
        matchType ⟨env, sourceModuleName⟩ inst.argument dispatchTy = .ok bindings := by
  cases decl with
  | instanceDecl inst' =>
    simp only [instanceCandidate, Decl.instanceDecl.injEq]
    by_cases ofClass : inst'.typeclassId = typeclass
    · rw [if_pos ofClass]
      unfold catchAustralError
      split <;> grind
    · rw [if_neg ofClass]
      grind
  | _ => simp [instanceCandidate]

theorem getInstance_eq_some
    (found : getInstance env sourceModuleName dispatchTy typeclass = .ok (some (inst, bindings))) :
    ∃ record instances, env.getModuleByName sourceModuleName = some record ∧
      env.visibleInstances record.id = .ok instances ∧ .instanceDecl inst ∈ instances ∧
      inst.typeclassId = typeclass ∧
      matchType ⟨env, sourceModuleName⟩ inst.argument dispatchTy = .ok bindings := by
  obtain ⟨_, record, instances, candidates, _, moduleFound, visible, each, selected⟩ :=
    getInstance_eq_ok.mp found
  have chosen : some (inst, bindings) ∈ candidates := by
    rw [← List.reduceOption_mem_iff, selectInstance_eq_some.mp selected]
    exact List.mem_singleton_self _
  obtain ⟨_, declVisible, candidate⟩ := Comp.exists_input_of_mem each chosen
  obtain ⟨rfl, ofClass, matched⟩ := instanceCandidate_eq_some.mp candidate
  exact ⟨record, instances, moduleFound, visible, declVisible, ofClass, matched⟩

end AustralVM
