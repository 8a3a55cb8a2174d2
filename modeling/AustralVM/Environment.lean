import AustralVM.MonoAst

/-!
# The compiler's environment

Modules, declarations and instance methods, with the operations of `Env.ml` that
add them and look them up.  The counters behind the fresh ids are fields of the
environment.  An instance carries the proof that its argument is not a lone type
variable, which the extraction pass checks before it adds one.
-/

namespace AustralVM

structure ModRec where
  id : ModId
  name : ModuleName
  importedInstances : List DeclId
  deriving Repr

structure InstanceDecl where
  id : DeclId
  modId : ModId
  vis : Vis
  typeclassId : DeclId
  typarams : List TypeParameter
  argument : Ty
  argumentNotTyVar : argument.isTyVar = false
  deriving Repr

inductive Decl
  | constant (id : DeclId) (modId : ModId) (vis : Vis) (name : Identifier) (ty : Ty)
  | record (id : DeclId) (modId : ModId) (vis : TypeVis) (name : Identifier)
      (typarams : List TypeParameter) (univ : Universe) (slots : List TypedSlot)
  | union (id : DeclId) (modId : ModId) (vis : TypeVis) (name : Identifier)
      (typarams : List TypeParameter) (univ : Universe)
  | unionCase (id : DeclId) (modId : ModId) (vis : Vis) (unionId : DeclId) (name : Identifier)
      (slots : List TypedSlot)
  | function (id : DeclId) (modId : ModId) (vis : Vis) (name : Identifier)
      (typarams : List TypeParameter) (valueParams : List ValueParameter) (rt : Ty)
      (externalName : Option String) (body : Option TStmt)
  | typeClass (id : DeclId) (modId : ModId) (vis : Vis) (name : Identifier)
      (param : TypeParameter)
  | typeClassMethod (id : DeclId) (modId : ModId) (vis : Vis) (typeclassId : DeclId)
      (name : Identifier) (typarams : List TypeParameter) (valueParams : List ValueParameter)
      (rt : Ty)
  | instanceDecl (inst : InstanceDecl)
  deriving Repr

namespace Decl

def id : Decl → DeclId
  | constant id .. | record id .. | union id .. | unionCase id .. | function id ..
  | typeClass id .. | typeClassMethod id .. => id
  | instanceDecl inst => inst.id

def modId : Decl → ModId
  | constant _ modId .. | record _ modId .. | union _ modId .. | unionCase _ modId ..
  | function _ modId .. | typeClass _ modId .. | typeClassMethod _ modId .. => modId
  | instanceDecl inst => inst.modId

/-- The name of a declaration; instances have none. -/
def name : Decl → Option Identifier
  | constant _ _ _ name .. | record _ _ _ name .. | union _ _ _ name ..
  | unionCase _ _ _ _ name .. | function _ _ _ name .. | typeClass _ _ _ name ..
  | typeClassMethod _ _ _ _ name .. => some name
  | instanceDecl _ => none

def instance? : Decl → Option InstanceDecl
  | instanceDecl inst => some inst
  | _ => none

end Decl

structure InsMethRec where
  id : InsMethId
  instanceId : DeclId
  methodId : DeclId
  name : Identifier
  typarams : List TypeParameter
  valueParams : List ValueParameter
  rt : Ty
  body : Option TStmt
  deriving Repr

structure Env where
  mods : List ModRec
  methods : List InsMethRec
  decls : List Decl
  /-- The functions exported to C. -/
  exports : List DeclId
  modCounter : Nat
  declCounter : Nat
  insMethCounter : Nat
  deriving Repr

def emptyEnv : Env := ⟨[], [], [], [], 1, 1, 1⟩

def showDeclId (id : DeclId) : String := s!"(Id.DeclId {id.index})"

def showMonoId (id : MonoId) : String := s!"(Id.MonoId {id.index})"

namespace Env

def getModuleById (env : Env) (modId : ModId) : Option ModRec :=
  env.mods.find? fun record => record.id = modId

def getModuleByName (env : Env) (name : ModuleName) : Option ModRec :=
  env.mods.find? fun record => record.name = name

def moduleNameFromId (env : Env) (modId : ModId) : Comp ModuleName :=
  match env.getModuleById modId with
  | some record => .ok record.name
  | none => internalErr "No module with this ID"

def addModule (env : Env) (name : ModuleName) (importedInstances : List DeclId) :
    Comp (Env × ModId) :=
  match env.getModuleByName name with
  | some _ =>
    australRaise .declarationError
      [.text "A module with the name ", .code name.string, .text " already exists."]
  | none =>
    let id : ModId := ⟨env.modCounter⟩
    .ok ({ env with
      mods := ⟨id, name, importedInstances⟩ :: env.mods
      modCounter := env.modCounter + 1 }, id)

/-- The first declaration of the named module with the given name.  A name in an
unknown module is an error. -/
def getDeclByName (env : Env) (name : SIdent) : Comp (Option Decl) :=
  match env.getModuleByName name.moduleName with
  | some record =>
    .ok (env.decls.find? fun decl => decl.modId = record.id && decl.name = some name.name)
  | none =>
    australRaise .declarationError
      [.text "Unknown module ", .code name.moduleName.string, .text "."]

def ensureNoDeclWithName (env : Env) (modId : ModId) (name : Identifier) : Comp Unit := do
  let moduleName ← env.moduleNameFromId modId
  match ← env.getDeclByName ⟨moduleName, name⟩ with
  | some _ =>
    australRaise .declarationError
      [.text "A declaration with the name ", .code name.string,
        .text " already exists in the module ", .code moduleName.string, .text "."]
  | none => return ()

def pushDecl (env : Env) (make : DeclId → Decl) : Env × DeclId :=
  let id : DeclId := ⟨env.declCounter⟩
  ({ env with decls := make id :: env.decls, declCounter := env.declCounter + 1 }, id)

/-- Add a declaration whose name has to be new in its module. -/
def addNamedDecl (env : Env) (modId : ModId) (name : Identifier) (make : DeclId → Decl) :
    Comp (Env × DeclId) := do
  env.ensureNoDeclWithName modId name
  return env.pushDecl make

def addConstant (env : Env) (modId : ModId) (vis : Vis) (name : Identifier) (ty : Ty) :
    Comp (Env × DeclId) :=
  env.addNamedDecl modId name fun id => .constant id modId vis name ty

def addRecord (env : Env) (modId : ModId) (vis : TypeVis) (name : Identifier)
    (typarams : List TypeParameter) (univ : Universe) (slots : List TypedSlot) :
    Comp (Env × DeclId) :=
  env.addNamedDecl modId name fun id => .record id modId vis name typarams univ slots

def addUnion (env : Env) (modId : ModId) (vis : TypeVis) (name : Identifier)
    (typarams : List TypeParameter) (univ : Universe) : Comp (Env × DeclId) :=
  env.addNamedDecl modId name fun id => .union id modId vis name typarams univ

/-- Union cases are added without a check of their name. -/
def addUnionCase (env : Env) (modId : ModId) (vis : Vis) (unionId : DeclId)
    (name : Identifier) (slots : List TypedSlot) : Env × DeclId :=
  env.pushDecl fun id => .unionCase id modId vis unionId name slots

def addFunction (env : Env) (modId : ModId) (vis : Vis) (name : Identifier)
    (typarams : List TypeParameter) (valueParams : List ValueParameter) (rt : Ty)
    (externalName : Option String) (body : Option TStmt) : Comp (Env × DeclId) :=
  env.addNamedDecl modId name fun id =>
    .function id modId vis name typarams valueParams rt externalName body

def addTypeClass (env : Env) (modId : ModId) (vis : Vis) (name : Identifier)
    (param : TypeParameter) : Comp (Env × DeclId) :=
  env.addNamedDecl modId name fun id => .typeClass id modId vis name param

def addTypeClassMethod (env : Env) (modId : ModId) (vis : Vis) (typeclassId : DeclId)
    (name : Identifier) (typarams : List TypeParameter) (valueParams : List ValueParameter)
    (rt : Ty) : Env × DeclId :=
  env.pushDecl fun id => .typeClassMethod id modId vis typeclassId name typarams valueParams rt

def addInstance (env : Env) (modId : ModId) (vis : Vis) (typeclassId : DeclId)
    (typarams : List TypeParameter) (argument : Ty)
    (argumentNotTyVar : argument.isTyVar = false) : Env × DeclId :=
  env.pushDecl fun id =>
    .instanceDecl ⟨id, modId, vis, typeclassId, typarams, argument, argumentNotTyVar⟩

def addInstanceMethod (env : Env) (instanceId methodId : DeclId) (name : Identifier)
    (typarams : List TypeParameter) (valueParams : List ValueParameter) (rt : Ty)
    (body : Option TStmt) : Env × InsMethId :=
  let id : InsMethId := ⟨env.insMethCounter⟩
  ({ env with
    methods := ⟨id, instanceId, methodId, name, typarams, valueParams, rt, body⟩ :: env.methods
    insMethCounter := env.insMethCounter + 1 }, id)

def getDeclById (env : Env) (id : DeclId) : Option Decl :=
  env.decls.find? fun decl => decl.id = id

def getDeclNameOrDie (env : Env) (id : DeclId) : Comp String :=
  match env.getDeclById id with
  | some decl =>
    match decl.name with
    | some name => .ok name.string
    | none => err "decl has no name"
  | none => internalErr ("decl with ID `" ++ showDeclId id ++ "` doesn't exist")

def getDeclByNameOrDie (env : Env) (name : SIdent) : Comp Decl := do
  match ← env.getDeclByName name with
  | some decl => return decl
  | none => internalErr ("No declaration with name `" ++ name.name.string ++ "`.")

def moduleInstances (env : Env) (modId : ModId) : List InstanceDecl :=
  (env.decls.filterMap Decl.instance?).filter fun inst => inst.modId = modId

def modulePublicInstances (env : Env) (modId : ModId) : List InstanceDecl :=
  (env.moduleInstances modId).filter fun inst => inst.vis = .visPublic

/-- The declarations instance resolution looks at from a module: the instances
the module defines and those it imports. -/
def visibleInstances (env : Env) (modId : ModId) : Comp (List Decl) := do
  match env.getModuleById modId with
  | some record =>
    let imported ← record.importedInstances.mapM fun id => optionGet (env.getDeclById id)
    return (env.moduleInstances modId).map .instanceDecl ++ imported
  | none => internalErr "No module with ID."

end Env

end AustralVM
