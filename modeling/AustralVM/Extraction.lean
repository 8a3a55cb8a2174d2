import AustralVM.CallCheck

/-!
# Extracting declarations into the environment

The extraction pass adds the definitions of a module to the environment, with
the checks of `TypeClasses.ml` on instance declarations.  Definitions are taken
after their type specifiers have been parsed, and modules with the names of those
they import from; what a pass leaves for the next one is only the environment.
-/

namespace AustralVM

/-! ## Checks on instance declarations -/

def wrongUniverse (ty : Ty) (expected actual : Universe) : Comp Unit :=
  australRaise .typeError
    [.text "Cannot define an instance with argument ", .type ty,
      .text " because it should belong to the ", .code (universeString expected),
      .text " universe, but it is actually in the ", .code (universeString actual),
      .text " universe."]

def checkInstanceArgumentHasRightUniverse (univ : Universe) (argument : Ty) : Comp Unit := do
  let actual ← typeUniverse argument
  if universeCompatible univ actual then
    return ()
  else
    wrongUniverse argument univ actual

def notATyvar (ty : Ty) : Comp TypeVar := do
  let univ ← typeUniverse ty
  australRaise .declarationError
    [.text "The type ", .type ty,
      .text (" is not a type parameter, but generic instances must use either all type " ++
        "parameters or none of them in the argument."),
      .break, .text "Consider adding another generic parameter with universe ",
      .code (universeString univ)]

def asTyvar : Ty → Comp TypeVar
  | .tyVar tyvar => .ok tyvar
  | ty => notATyvar ty

def allDistinct (tyvars : List TypeVar) : Comp Unit :=
  if (tyvars.map TypeVar.name).Nodup then
    .ok ()
  else
    australRaise .declarationError
      [.text "Generic instances can only use each type parameter once in the argument."]

def noLeftovers (typarams : List TypeParameter) (count : Nat) : Comp Unit :=
  if typarams.length = count then
    .ok ()
  else
    australRaise .declarationError
      [.text ("The number of type parameters in the instance declaration must be the same as " ++
        "the number of type variables applied to the argument.")]

/-- The arguments of the type are as many distinct variables as the instance has
type parameters. -/
def checkDistinctVariables (typarams : List TypeParameter) (args : List Ty) : Comp Unit := do
  let tyvars ← args.mapM asTyvar
  allDistinct tyvars
  noLeftovers typarams args.length

def checkInstanceArgumentHasRightShape (typarams : List TypeParameter) (argument : Ty) :
    Comp Unit :=
  match argument with
  | .unit | .boolean | .integer _ _ | .singleFloat | .doubleFloat => .ok ()
  | .namedType _ args _ => checkDistinctVariables typarams args
  | .regionTy _ => australRaise .declarationError [.text "Typeclass arguments cannot be regions."]
  | .readRef ty region | .writeRef ty region | .span ty region | .spanMut ty region =>
    checkDistinctVariables typarams [ty, region]
  | .tyVar _ =>
    australRaise .declarationError
      [.text "Typeclass arguments cannot be lone type parameters."]
  | .address ty | .pointer ty => checkDistinctVariables typarams [ty]
  | .fnPtr args rt => checkDistinctVariables typarams (rt :: args)
  | .monoTy _ => err "Not allowed"

theorem isTyVar_eq_false_of_rightShape
    (shape : checkInstanceArgumentHasRightShape typarams argument = .ok ()) :
    argument.isTyVar = false := by
  cases argument with
  | tyVar => simp [checkInstanceArgumentHasRightShape] at shape
  | _ => rfl

/-- Whether two instance arguments overlap, by their heads. -/
def overlappingInstances (a b : Ty) : Comp Bool :=
  match a with
  | .unit => .ok (b matches .unit)
  | .boolean => .ok (b matches .boolean)
  | .integer signedness width =>
    match b with
    | .integer signedness' width' => .ok (signedness = signedness' && width = width')
    | _ => .ok false
  | .singleFloat => .ok (b matches .singleFloat)
  | .doubleFloat => .ok (b matches .doubleFloat)
  | .namedType name _ _ =>
    match b with
    | .namedType name' _ _ => .ok (equalQident name name')
    | _ => .ok false
  | .readRef _ _ => .ok (b matches .readRef _ _)
  | .writeRef _ _ => .ok (b matches .writeRef _ _)
  | .span _ _ => .ok (b matches .span _ _)
  | .spanMut _ _ => .ok (b matches .spanMut _ _)
  | .address _ => .ok (b matches .address _)
  -- The source answers true for every other head here as well.
  | .pointer _ => .ok true
  | .fnPtr _ _ => .ok (b matches .fnPtr _ _)
  | .regionTy _ | .tyVar _ | .monoTy _ => err "Not allowed"

def checkInstanceLocallyUnique (argument : Ty) : List InstanceDecl → Comp Unit
  | [] => .ok ()
  | inst :: instances => do
    if ← overlappingInstances argument inst.argument then
      australRaise .genericError [.text "Instance overlaps."]
    else
      checkInstanceLocallyUnique argument instances

/-- Whether a type belongs to a module.  Every built-in type belongs to every
module. -/
def isTypeLocal (env : Env) (modId : ModId) : Ty → Comp Bool
  | .namedType name _ _ => do
    let decl ← env.getDeclByNameOrDie (qidentToSident name)
    return modId = decl.modId
  | .regionTy _ | .tyVar _ | .monoTy _ => .ok false
  | _ => .ok true

def checkInstanceOrphanRules (env : Env) (modId typeclassModId : ModId) (argument : Ty) :
    Comp Unit := do
  let typeLocal ← isTypeLocal env modId argument
  if modId ≠ typeclassModId ∧ typeLocal = false then
    australRaise .genericError
      [.text "Orphan rule broken: typeclass and type are both foreign."]
  else
    return ()

def shadowingTypeclassParam (name : Identifier) : Comp Unit :=
  australRaise .declarationError
    [.text ("The type parameters in a generic instance declaration cannot have the same name " ++
        "as the type parameter in the corresponding typeclass. The colliding name is "),
      .code name.string, .text ".", .break,
      .text ("This is, regrettably, a load-bearing hack for " ++
        "https://github.com/austral/austral/issues/244. Fixing this properly would require " ++
        "rewriting large parts of the frontend.")]

def checkDisjointTyparams (name : Identifier) (typarams : List TypeParameter) : Comp Unit :=
  if typarams.any fun typaram => typaram.name = name then
    shadowingTypeclassParam name
  else
    .ok ()

/-! ## Definitions -/

structure MethodDecl where
  name : Identifier
  typarams : List TypeParameter
  params : List ValueParameter
  rt : Ty
  deriving Repr

/-- A definition of a module, with its types parsed. -/
inductive Definition
  | constant (vis : Vis) (name : Identifier) (ty : Ty)
  | record (vis : TypeVis) (name : Identifier) (typarams : List TypeParameter)
      (univ : Universe) (slots : List TypedSlot)
  | union (vis : TypeVis) (name : Identifier) (typarams : List TypeParameter)
      (univ : Universe) (cases : List TypedCase)
  | function (vis : Vis) (name : Identifier) (typarams : List TypeParameter)
      (params : List ValueParameter) (rt : Ty) (pragmas : List Pragma)
  | typeclass (vis : Vis) (name : Identifier) (param : TypeParameter)
      (methods : List MethodDecl)
  | instanceDef (vis : Vis) (typeclassName : QIdent) (typarams : List TypeParameter)
      (argument : Ty) (methods : List MethodDecl)
  deriving Repr

def freeContainsLinear (name : Identifier) (univ : String) (parameter : Bool) : Comp Unit :=
  australRaise .linearityError
    [.code name.string, .text " was declared to belong to the ", .code "Free",
      .text " universe, but it ",
      .text (if parameter then "has a type parameter" else "contains a type"),
      .text " that belongs to the ", .code univ, .text " universe."]

/-- Reject the universes a free type may not contain. -/
def checkUniverseIsFree (name : Identifier) (parameter : Bool) : Universe → Comp Unit
  | .free | .region => .ok ()
  | .linear => freeContainsLinear name "Linear" parameter
  | .type => freeContainsLinear name "Type" parameter

def checkSlotsAreFree (name : Identifier) (slots : List TypedSlot) : Comp Unit :=
  slots.forM fun slot => do checkUniverseIsFree name false (← typeUniverse slot.ty)

def checkTyparamsAreFree (name : Identifier) (typarams : List TypeParameter) : Comp Unit :=
  typarams.forM fun typaram => checkUniverseIsFree name true typaram.univ

def typesAreNotRegions (name : Identifier) (declaration : String) : Comp Unit :=
  australRaise .declarationError
    [.text "The ", .text declaration, .text " ", .code name.string,
      .text " was declared to belong to the ", .code "Region",
      .text " universe, but regions are distinct from types.", .break,
      .text "Consider using one of ", .code "Type", .text ", ", .code "Linear", .text ", or ",
      .code "Free", .text " instead."]

/-- The checks on a declared type: what it contains is free if it is, and it is
not a region. -/
def checkTypeDeclaration (name : Identifier) (declaration : String) (univ : Universe)
    (contentsFree : Comp Unit) : Comp Unit := do
  if univ = .free then contentsFree
  if univ = .region then typesAreNotRegions name declaration

mutual
def typeVariables : Ty → List TypeVar
  | .namedType _ args _ => typeVariablesList args
  | .readRef ty region | .writeRef ty region | .span ty region | .spanMut ty region =>
    typeVariables ty ++ typeVariables region
  | .tyVar tyvar => [tyvar]
  | .address ty | .pointer ty => typeVariables ty
  | .fnPtr args rt => typeVariablesList args ++ typeVariables rt
  | .unit | .boolean | .integer _ _ | .singleFloat | .doubleFloat | .regionTy _ | .monoTy _ => []
def typeVariablesList : List Ty → List TypeVar
  | [] => []
  | ty :: tys => typeVariables ty ++ typeVariablesList tys
end

def checkAllTypeParametersAppearInSignature (typarams : List TypeParameter)
    (params : List ValueParameter) (rt : Ty) : Comp Unit :=
  let signature := typeVariablesList (params.map ValueParameter.ty) ++ typeVariables rt
  typarams.forM fun typaram =>
    if typaramToTyvar typaram ∈ signature then
      .ok ()
    else
      australRaise .declarationError
        [.text "The type parameter ", .code typaram.name.string,
          .text " does not appear anywhere in the signature of the function."]

def importName (pragmas : List Pragma) : Option String :=
  pragmas.findSome? fun
    | .foreignImport name => some name
    | _ => none

def exportName (pragmas : List Pragma) : Option String :=
  pragmas.findSome? fun
    | .foreignExport name => some name
    | _ => none

def checkPragmas (name : Identifier) (typarams : List TypeParameter) (pragmas : List Pragma) :
    Comp Unit := do
  if (importName pragmas).isSome ∧ (exportName pragmas).isSome then
    australRaise .declarationError
      [.text "The function ", .code name.string, .text " cannot have both the ",
        .code "Foreign_Import", .text " and ", .code "Foreign_Export",
        .text " pragmas simultaneously."]
  if (exportName pragmas).isSome ∧ typarams ≠ [] then
    australRaise .declarationError
      [.text "The function ", .code name.string,
        .text " cannot be exported because it is generic."]

def typeclassParamNotRegion (name : Identifier) : Comp Unit :=
  australRaise .declarationError
    [.text "The parameter for the typeclass ", .code name.string,
      .text " cannot be declared to be in the ", .code "Region",
      .text " universe, because regions are distinct from types.", .break,
      .text "Consider using one of ", .code "Type", .text ", ", .code "Linear", .text ", or ",
      .code "Free", .text " instead."]

def findTypeclass (env : Env) (typeclassName : QIdent) :
    Comp (DeclId × ModId × TypeParameter) := do
  match ← env.getDeclByName (qidentToSident typeclassName) with
  | some (.typeClass id modId _ _ param) => return (id, modId, param)
  | some _ =>
    australRaise .declarationError
      [.text "Cannot create an instance for ", .code typeclassName.original.string,
        .text " because it is not a typeclass."]
  | none =>
    australRaise .declarationError
      [.text "Cannot find typeclass with the name ", .code typeclassName.original.string]

def Env.addUnionCases (env : Env) (modId : ModId) (vis : Vis) (unionId : DeclId) :
    List TypedCase → Env
  | [] => env
  | unionCase :: cases =>
    Env.addUnionCases (env.addUnionCase modId vis unionId unionCase.name unionCase.slots).1
      modId vis unionId cases

def Env.addTypeClassMethods (env : Env) (modId : ModId) (vis : Vis) (typeclassId : DeclId) :
    List MethodDecl → Env
  | [] => env
  | method :: methods =>
    Env.addTypeClassMethods (env.addTypeClassMethod modId vis typeclassId method.name
      method.typarams method.params method.rt).1 modId vis typeclassId methods

/-- The type parameters of a method may not repeat those around it. -/
def checkMergeTyparams (outer inner : List TypeParameter) : Comp Unit :=
  if inner.any fun typaram => outer.any fun typaram' => typaram.name = typaram'.name then
    australRaise .genericError [.text "Multiple type parameters have the same name."]
  else
    .ok ()

/-- The method of the typeclass that an instance method implements. -/
def Env.getMethodFromTypeclassIdAndName (env : Env) (typeclassId : DeclId) (name : Identifier) :
    Option Decl :=
  env.decls.find? fun decl =>
    match decl with
    | .typeClassMethod _ _ _ typeclassId' name' .. => typeclassId' = typeclassId && name' = name
    | _ => false

def Env.addInstanceMethods (env : Env) (typeclassName : Identifier)
    (typarams : List TypeParameter) (typeclassId instanceId : DeclId) :
    List MethodDecl → Comp Env
  | [] => .ok env
  | method :: methods => do
    checkMergeTyparams typarams method.typarams
    match env.getMethodFromTypeclassIdAndName typeclassId method.name with
    | some decl =>
      Env.addInstanceMethods (env.addInstanceMethod instanceId decl.id method.name
        method.typarams method.params method.rt none).1 typeclassName typarams typeclassId
        instanceId methods
    | none =>
      australRaise .declarationError
        [.text "The typeclass ", .code typeclassName.string,
          .text " has no method named ", .code method.name.string]

/-- The instance part of extraction: find the typeclass, check the argument's
universe, shape and parameters, local uniqueness and the orphan rule, and add
the instance. -/
def extractInstance (env : Env) (modId : ModId) (vis : Vis) (typeclassName : QIdent)
    (typarams : List TypeParameter) (argument : Ty) : Comp (Env × DeclId × DeclId) := do
  let (typeclassId, typeclassModId, param) ← findTypeclass env typeclassName
  checkInstanceArgumentHasRightUniverse param.univ argument
  match shape : checkInstanceArgumentHasRightShape typarams argument with
  | .error exn => .error exn
  | .ok () =>
    checkDisjointTyparams param.name typarams
    checkInstanceLocallyUnique argument
      ((env.moduleInstances modId).filter fun inst => inst.typeclassId = typeclassId)
    checkInstanceOrphanRules env modId typeclassModId argument
    let (env', instanceId) := env.addInstance modId vis typeclassId typarams argument
      (isTyVar_eq_false_of_rightShape shape)
    return (env', typeclassId, instanceId)

def caseVis : TypeVis → Vis
  | .visPublic => .visPublic
  | .visOpaque | .visPrivate => .visPrivate

def memoryModuleName : ModuleName := ⟨"Austral.Memory"⟩

def isAddressType (name : QIdent) : Bool :=
  name.source = memoryModuleName && name.original = ⟨"Address"⟩

def isPointerType (name : QIdent) : Bool :=
  name.source = memoryModuleName && name.original = ⟨"Pointer"⟩

/-- Add one definition of the module with an id and a name to the environment. -/
def extractDefinition (env : Env) (modId : ModId) (mn : ModuleName) : Definition → Comp Env
  | .constant vis name ty => do
    let (env, _) ← env.addConstant modId vis name ty
    return env
  | .record vis name typarams univ slots => do
    checkTypeDeclaration name "record" univ do
      checkSlotsAreFree name slots
      let qname : QIdent := ⟨mn, name, name⟩
      if isAddressType qname || isPointerType qname then return ()
      checkTyparamsAreFree name typarams
    let (env, _) ← env.addRecord modId vis name typarams univ slots
    return env
  | .union vis name typarams univ cases => do
    checkTypeDeclaration name "union" univ do
      cases.forM fun unionCase => checkSlotsAreFree unionCase.name unionCase.slots
      checkTyparamsAreFree name typarams
    let (env, unionId) ← env.addUnion modId vis name typarams univ
    return env.addUnionCases modId (caseVis vis) unionId cases
  | .function vis name typarams params rt pragmas => do
    checkPragmas name typarams pragmas
    checkAllTypeParametersAppearInSignature typarams params rt
    let (env, id) ← env.addFunction modId vis name typarams params rt (importName pragmas) none
    match exportName pragmas with
    | some _ => return { env with exports := id :: env.exports }
    | none => return env
  | .typeclass vis name param methods => do
    if param.univ = .region then typeclassParamNotRegion name
    let (env, typeclassId) ← env.addTypeClass modId vis name param
    methods.forM fun method => checkMergeTyparams [param] method.typarams
    return env.addTypeClassMethods modId vis typeclassId methods
  | .instanceDef vis typeclassName typarams argument methods => do
    let (env, typeclassId, instanceId) ←
      extractInstance env modId vis typeclassName typarams argument
    env.addInstanceMethods typeclassName.original typarams typeclassId instanceId methods

/-- The public instances of the modules a module imports from. -/
def importInstances (env : Env) (imports : List ModuleName) : List DeclId :=
  (imports.flatMap fun name =>
    match env.getModuleByName name with
    | some record => (env.modulePublicInstances record.id).map InstanceDecl.id
    | none => []).dedup

def extractHeader (env : Env) (name : ModuleName) (imports : List ModuleName) :
    Comp (Env × ModId) :=
  env.addModule name (importInstances env imports)

structure ModuleSource where
  name : ModuleName
  imports : List ModuleName
  definitions : List Definition
  deriving Repr

def extractModule (env : Env) (source : ModuleSource) : Comp Env := do
  let (env, modId) ← extractHeader env source.name source.imports
  source.definitions.foldlM (fun env definition => extractDefinition env modId source.name definition)
    env

/-- Extract the modules of a program, in the order the compiler is given them. -/
def extractModules (env : Env) (sources : List ModuleSource) : Comp Env :=
  sources.foldlM extractModule env

end AustralVM
