import AustralVM.ExceptRules
import AustralVM.Extraction
import AustralVM.TypeMatchSoundness
import Mathlib.Data.List.Dedup

/-!
# Coherence of instances

Extracting a program adds its modules one after the other.  The pass compares a
new instance only with the instances of its own module; that no type has two
instances in the whole program has to follow from the orphan rule and from the
order of the modules.
-/

namespace AustralVM

open AustralVM.Comp List
open Except (Yields yields_pure yields_step yields_ite)

def Env.instances (env : Env) : List InstanceDecl :=
  env.decls.filterMap Decl.instance?

variable {inst : InstanceDecl} {env env' : Env} {modId : ModId} {current : Option ModId}

@[simp]
theorem Decl.instance?_eq_some {decl : Decl} :
    decl.instance? = some inst ↔ decl = .instanceDecl inst := by
  cases decl <;> simp [Decl.instance?]

theorem Env.mem_instances : inst ∈ env.instances ↔ .instanceDecl inst ∈ env.decls := by
  simp [Env.instances, mem_filterMap]

/-- The environments that extracting the modules of a program can reach, with
the module being extracted, when every definition is allowed where it is
extracted. -/
inductive Reached (allowed : Env → ModId → Definition → Prop) :
    Env → Option (ModId × ModuleName) → Prop
  | start : Reached allowed emptyEnv none
  | header {env env' : Env} {current : Option (ModId × ModuleName)} {modId : ModId}
      {name : ModuleName} {imports : List ModuleName} :
      Reached allowed env current → extractHeader env name imports = .ok (env', modId) →
      Reached allowed env' (some (modId, name))
  | definition {env env' : Env} {modId : ModId} {name : ModuleName} {definition : Definition} :
      Reached allowed env (some (modId, name)) → allowed env modId definition →
      extractDefinition env modId name definition = .ok env' →
      Reached allowed env' (some (modId, name))

/-- Two arguments overlap, whichever of them comes first. -/
def Overlap (first second : Ty) : Prop :=
  overlappingInstances first second = .ok true ∧ overlappingInstances second first = .ok true

/-- At most one instance of a typeclass matches a type, and so no lookup from
any module finds two candidates. -/
def Coherent (env : Env) : Prop :=
  (∀ moduleName moduleName' ty first second bindings bindings',
    first ∈ env.instances → second ∈ env.instances →
    first.typeclassId = second.typeclassId →
    matchType ⟨env, moduleName⟩ first.argument ty = .ok bindings →
    matchType ⟨env, moduleName'⟩ second.argument ty = .ok bindings' →
    first = second) ∧
  (∀ moduleName ty typeclass record instances candidates,
    env.getModuleByName moduleName = some record →
    env.visibleInstances record.id = .ok instances →
    Forall₂ (fun decl candidate =>
      instanceCandidate env moduleName ty typeclass decl = .ok candidate) instances candidates →
    candidates.reduceOption.length ≤ 1)

/-- A definition takes up no built-in type that another module has taken up for
the same typeclass. -/
def NoForeignOverlap (env : Env) (modId : ModId) : Definition → Prop
  | .instanceDef _ typeclassName _ argument _ =>
    (∃ name args univ, argument = .namedType name args univ) ∨
    ∀ typeclassId typeclassModId param,
      findTypeclass env typeclassName = .ok (typeclassId, typeclassModId, param) →
      ∀ inst ∈ env.instances, inst.typeclassId = typeclassId → inst.modId ≠ modId →
        ¬ Overlap argument inst.argument
  | _ => True

/-! ## Matching one type means overlapping -/

theorem overlappingInstances_of_match
    (shape : checkInstanceArgumentHasRightShape typarams first = .ok ())
    (notTyVar : second.isTyVar = false) (matchedFirst : matchType ctx first ty = .ok bindings)
    (matchedSecond : matchType ctx' second ty = .ok bindings') :
    overlappingInstances first second = .ok true := by
  cases first with
  | regionTy => simp [checkInstanceArgumentHasRightShape] at shape
  | tyVar => simp [checkInstanceArgumentHasRightShape] at shape
  | monoTy => simp [matchType] at matchedFirst
  | pointer => simp [overlappingInstances]
  | integer | namedType =>
    cases ty <;> simp only [matchType, typeMismatch, australRaise_ne_ok] at matchedFirst
    cases second <;> simp_all [matchType, typeMismatch, overlappingInstances, Ty.isTyVar]
    grind [australRaise_ne_ok, equalQident]
  | _ =>
    cases ty <;> simp only [matchType, typeMismatch, australRaise_ne_ok] at matchedFirst
    cases second <;> simp_all [matchType, typeMismatch, overlappingInstances, Ty.isTyVar]

/-! ## What extraction keeps -/

/-- Where an instance stands: after its typeclass and, if its argument is a
declared type, after that type, and in the module of one of the two. -/
def Placed (env : Env) (inst : InstanceDecl) : Prop :=
  ∃ classDecl ∈ env.decls, classDecl.id = inst.typeclassId ∧
    classDecl.modId.index ≤ inst.modId.index ∧
    ∀ name args univ, inst.argument = .namedType name args univ →
      ∃ record, env.getModuleByName name.source = some record ∧
        record.id.index ≤ inst.modId.index ∧
        (inst.modId = classDecl.modId ∨ inst.modId = record.id)

/-- What holds of every environment that extraction reaches. -/
structure Extracted (env : Env) (current : Option ModId) : Prop where
  modBound : ∀ record ∈ env.mods, record.id.index < env.modCounter
  modIds : (env.mods.map ModRec.id).Nodup
  currentLast : ∀ modId, current = some modId → modId.index + 1 = env.modCounter
  declBound : ∀ decl ∈ env.decls,
    decl.id.index < env.declCounter ∧ decl.modId.index < env.modCounter
  declIds : (env.decls.map Decl.id).Nodup
  /-- A module imports instances of earlier modules, each once. -/
  imports : ∀ record ∈ env.mods, record.importedInstances.Nodup ∧
    ∀ id ∈ record.importedInstances, ∃ decl ∈ env.decls, decl.id = id ∧
      decl.modId.index < record.id.index
  shaped : ∀ inst ∈ env.instances,
    checkInstanceArgumentHasRightShape inst.typarams inst.argument = .ok ()
  placed : ∀ inst ∈ env.instances, Placed env inst
  /-- Overlapping instances of one typeclass are one instance, or stand in two
  modules and are for a declared type. -/
  apart : ∀ first ∈ env.instances, ∀ second ∈ env.instances,
    first.typeclassId = second.typeclassId → Overlap first.argument second.argument →
    first = second ∨ first.modId ≠ second.modId ∧
      ∃ name args univ, first.argument = .namedType name args univ

namespace Extracted

theorem start : Extracted emptyEnv none := by
  constructor <;> simp [emptyEnv, Env.instances]

theorem congr (extracted : Extracted env current) (sameMods : env'.mods = env.mods)
    (sameDecls : env'.decls = env.decls) (sameModCounter : env'.modCounter = env.modCounter)
    (sameDeclCounter : env'.declCounter = env.declCounter) : Extracted env' current := by
  cases env
  cases env'
  simp only at sameMods sameDecls sameModCounter sameDeclCounter
  subst sameMods sameDecls sameModCounter sameDeclCounter
  exact ⟨extracted.modBound, extracted.modIds, extracted.currentLast, extracted.declBound,
    extracted.declIds, extracted.imports, extracted.shaped, extracted.placed, extracted.apart⟩

end Extracted

theorem Placed.pushDecl (placed : Placed env inst) (make : DeclId → Decl) :
    Placed (env.pushDecl make).1 inst := by
  obtain ⟨classDecl, member, rest⟩ := placed
  exact ⟨classDecl, mem_cons_of_mem _ member, rest⟩

namespace Extracted

variable {env : Env} {modId : ModId} {make : DeclId → Decl}

section

variable (extracted : Extracted env (some modId))
  (idEq : (make ⟨env.declCounter⟩).id = ⟨env.declCounter⟩)
  (modIdEq : (make ⟨env.declCounter⟩).modId = modId)
include extracted idEq modIdEq

theorem pushDecl (shaped : ∀ inst, make ⟨env.declCounter⟩ = .instanceDecl inst →
      checkInstanceArgumentHasRightShape inst.typarams inst.argument = .ok ())
    (placed : ∀ inst, make ⟨env.declCounter⟩ = .instanceDecl inst → Placed env inst)
    (unique : ∀ inst, make ⟨env.declCounter⟩ = .instanceDecl inst → ∀ other ∈ env.instances,
      inst.typeclassId = other.typeclassId → Overlap inst.argument other.argument →
      inst.modId ≠ other.modId ∧ ∃ name args univ, inst.argument = .namedType name args univ) :
    Extracted (env.pushDecl make).1 (some modId) := by
  have currentBound := extracted.currentLast modId rfl
  have memInstances : ∀ inst, inst ∈ (env.pushDecl make).1.instances →
      make ⟨env.declCounter⟩ = .instanceDecl inst ∨ inst ∈ env.instances := by
    intro _ member
    simpa [Env.mem_instances, Env.pushDecl, eq_comm] using member
  refine ⟨extracted.modBound, extracted.modIds, extracted.currentLast, ?_, ?_, ?_, ?_, ?_, ?_⟩
  · intro decl member
    rcases mem_cons.mp member with rfl | inOld
    · simp only [Env.pushDecl, idEq, modIdEq]
      omega
    · have bounds := extracted.declBound decl inOld
      exact ⟨Nat.lt_succ_of_lt bounds.1, bounds.2⟩
  · refine nodup_cons.mpr ⟨?_, extracted.declIds⟩
    rw [idEq]
    intro member
    obtain ⟨decl, declMember, declId⟩ := mem_map.mp member
    have bound := (extracted.declBound decl declMember).1
    rw [declId] at bound
    exact absurd bound (Nat.lt_irrefl _)
  · intro record member
    obtain ⟨nodup, earlier⟩ := extracted.imports record member
    refine ⟨nodup, fun id idMember => ?_⟩
    obtain ⟨decl, declMember, rest⟩ := earlier id idMember
    exact ⟨decl, mem_cons_of_mem _ declMember, rest⟩
  · intro inst member
    rcases memInstances inst member with new | old
    · exact shaped inst new
    · exact extracted.shaped inst old
  · intro inst member
    rcases memInstances inst member with new | old
    · exact (placed inst new).pushDecl make
    · exact (extracted.placed inst old).pushDecl make
  · intro first firstMember second secondMember sameClass overlap
    rcases memInstances first firstMember with newFirst | oldFirst
    · rcases memInstances second secondMember with newSecond | oldSecond
      · exact .inl (Decl.instanceDecl.inj (newFirst.symm.trans newSecond))
      · exact .inr (unique first newFirst second oldSecond sameClass overlap)
    · rcases memInstances second secondMember with newSecond | oldSecond
      · obtain ⟨different, _, _, _, named⟩ :=
          unique second newSecond first oldFirst sameClass.symm overlap.symm
        refine .inr ⟨different.symm, ?_⟩
        -- The head of an instance that overlaps a declared type is that type.
        cases firstArgument : first.argument with
        | namedType name' args' univ' => exact ⟨name', args', univ', rfl⟩
        | _ => simp [Overlap, overlappingInstances, named, firstArgument] at overlap
      · exact extracted.apart first oldFirst second oldSecond sameClass overlap

theorem pushNonInstance (notInstance : (make ⟨env.declCounter⟩).instance? = none) :
    Extracted (env.pushDecl make).1 (some modId) := by
  have noInstance : ∀ inst, make ⟨env.declCounter⟩ ≠ .instanceDecl inst := by
    intro _ equal
    simp [equal, Decl.instance?] at notInstance
  exact extracted.pushDecl idEq modIdEq (fun inst equal => absurd equal (noInstance inst))
    (fun inst equal => absurd equal (noInstance inst))
    (fun inst equal => absurd equal (noInstance inst))

theorem addNamedDecl (notInstance : (make ⟨env.declCounter⟩).instance? = none) (name : Identifier) :
    Yields (fun added => Extracted added.1 (some modId)) (env.addNamedDecl modId name make) :=
  yields_step fun _ => yields_pure (extracted.pushNonInstance idEq modIdEq notInstance)

end

theorem addUnionCases (extracted : Extracted env (some modId)) (vis : Vis) (unionId : DeclId)
    (cases : List TypedCase) :
    Extracted (env.addUnionCases modId vis unionId cases) (some modId) := by
  induction cases generalizing env with
  | nil => exact extracted
  | cons _ _ ih => exact ih (extracted.pushNonInstance rfl rfl rfl)

theorem addTypeClassMethods (extracted : Extracted env (some modId)) (vis : Vis)
    (typeclassId : DeclId) (methods : List MethodDecl) :
    Extracted (env.addTypeClassMethods modId vis typeclassId methods) (some modId) := by
  induction methods generalizing env with
  | nil => exact extracted
  | cons _ _ ih => exact ih (extracted.pushNonInstance rfl rfl rfl)

theorem addInstanceMethods (extracted : Extracted env current) (methods : List MethodDecl) :
    Yields (Extracted · current)
      (env.addInstanceMethods typeclassName typarams typeclassId instanceId methods) := by
  induction methods generalizing env with
  | nil => exact yields_pure extracted
  | cons _ _ ih =>
    refine yields_step fun _ => ?_
    split
    · exact ih (extracted.congr rfl rfl rfl rfl)
    · exact fun _ raised => absurd raised australRaise_ne_ok

end Extracted

/-! ## Adding an instance -/

theorem not_overlap_of_checkInstanceLocallyUnique
    (unique : checkInstanceLocallyUnique argument instances = .ok ()) :
    ∀ inst ∈ instances, ¬ Overlap argument inst.argument := by
  induction instances with
  | nil => simp
  | cons _ _ ih =>
    obtain ⟨overlaps, compared, unique⟩ := bind_eq_ok.mp unique
    cases overlaps with
    | true => exact absurd unique australRaise_ne_ok
    | false =>
      intro other member overlap
      rcases mem_cons.mp member with rfl | inRest
      · rw [overlap.1] at compared
        cases compared
      · exact ih unique other inRest overlap

theorem Env.getDeclByName_eq_ok (found : env.getDeclByName name = .ok (some decl)) :
    ∃ record, env.getModuleByName name.moduleName = some record ∧ decl ∈ env.decls ∧
      decl.modId = record.id := by
  unfold Env.getDeclByName at found
  split at found
  · rename_i record hasModule
    have inModule := find?_some (Except.ok.inj found)
    simp only [Bool.and_eq_true, decide_eq_true_eq] at inModule
    exact ⟨record, hasModule, mem_of_find?_eq_some (Except.ok.inj found), inModule.1⟩
  · exact absurd found australRaise_ne_ok

theorem findTypeclass_eq_ok
    (found : findTypeclass env typeclassName = .ok (typeclassId, typeclassModId, param)) :
    ∃ classDecl ∈ env.decls, classDecl.id = typeclassId ∧ classDecl.modId = typeclassModId := by
  obtain ⟨_, lookedUp, found⟩ := bind_eq_ok.mp found
  split at found
  · obtain ⟨_, _, member, _⟩ := Env.getDeclByName_eq_ok lookedUp
    cases found
    exact ⟨_, member, rfl, rfl⟩
  · exact absurd found australRaise_ne_ok
  · exact absurd found australRaise_ne_ok

theorem checkInstanceOrphanRules_eq_ok
    (checked : checkInstanceOrphanRules env modId typeclassModId (.namedType name args univ) =
      .ok ()) : ∃ record, env.getModuleByName name.source = some record ∧
      (modId = typeclassModId ∨ modId = record.id) := by
  obtain ⟨_, localEq, checked⟩ := bind_eq_ok.mp checked
  obtain ⟨decl, lookedUp, localEq⟩ := bind_eq_ok.mp localEq
  obtain ⟨decl?, found, lookedUp⟩ := bind_eq_ok.mp lookedUp
  obtain rfl := pure_eq_ok.mp localEq
  cases decl? with
  | none => exact absurd lookedUp internalErr_ne_ok
  | some =>
    obtain rfl := pure_eq_ok.mp lookedUp
    obtain ⟨record, hasModule, _, _⟩ := Env.getDeclByName_eq_ok found
    refine ⟨record, hasModule, ?_⟩
    split at checked
    · exact absurd checked australRaise_ne_ok
    · grind

theorem extractInstance_eq_ok
    (extractedTo : extractInstance env modId vis typeclassName typarams argument =
      .ok (env', typeclassId, instanceId)) : ∃ typeclassModId param,
      ∃ shape : checkInstanceArgumentHasRightShape typarams argument = .ok (),
        findTypeclass env typeclassName = .ok (typeclassId, typeclassModId, param) ∧
        (∀ inst ∈ env.instances, inst.typeclassId = typeclassId → inst.modId = modId →
          ¬ Overlap argument inst.argument) ∧
        checkInstanceOrphanRules env modId typeclassModId argument = .ok () ∧
        env' = (env.addInstance modId vis typeclassId typarams argument
          (isTyVar_eq_false_of_rightShape shape)).1 := by
  obtain ⟨⟨foundId, typeclassModId, param⟩, found, extractedTo⟩ := bind_eq_ok.mp extractedTo
  obtain ⟨_, _, extractedTo⟩ := bind_eq_ok.mp extractedTo
  split at extractedTo
  · cases extractedTo
  · rename_i shape
    obtain ⟨_, _, extractedTo⟩ := bind_eq_ok.mp extractedTo
    obtain ⟨_, unique, extractedTo⟩ := bind_eq_ok.mp extractedTo
    obtain ⟨_, orphan, extractedTo⟩ := bind_eq_ok.mp extractedTo
    cases pure_eq_ok.mp extractedTo
    refine ⟨typeclassModId, param, shape, found, ?_, orphan, rfl⟩
    intro inst member ofClass inModule
    refine not_overlap_of_checkInstanceLocallyUnique unique inst ?_
    simp only [Env.moduleInstances, mem_filter, decide_eq_true_eq]
    exact ⟨⟨member, inModule⟩, ofClass⟩

namespace Extracted

variable {env env' : Env} {modId : ModId}

theorem extractInstance (extracted : Extracted env (some modId))
    (noForeign : NoForeignOverlap env modId
      (.instanceDef vis typeclassName typarams argument methods)) :
    Yields (fun added => Extracted added.1 (some modId))
      (extractInstance env modId vis typeclassName typarams argument) := by
  rintro ⟨_, _, _⟩ extractedTo
  obtain ⟨_, _, shape, found, unique, orphan, rfl⟩ := extractInstance_eq_ok extractedTo
  have currentLast := extracted.currentLast modId rfl
  dsimp only
  refine extracted.pushDecl rfl rfl ?_ ?_ ?_
  · rintro _ equal
    cases equal
    exact shape
  · rintro _ equal
    cases equal
    obtain ⟨classDecl, member, rfl, rfl⟩ := findTypeclass_eq_ok found
    have classBound := (extracted.declBound classDecl member).2
    refine ⟨classDecl, member, rfl, by dsimp only; omega, ?_⟩
    rintro _ _ _ rfl
    obtain ⟨record, hasModule, localTo⟩ := checkInstanceOrphanRules_eq_ok orphan
    have recordBound := extracted.modBound record (mem_of_find?_eq_some hasModule)
    exact ⟨record, hasModule, by dsimp only; omega, localTo⟩
  · rintro _ equal other member sameClass overlap
    cases equal
    have differentModule : other.modId ≠ modId := fun inModule =>
      unique other member sameClass.symm inModule overlap
    refine ⟨differentModule.symm, ?_⟩
    rcases noForeign with named | apart
    · exact named
    · exact absurd overlap (apart _ _ _ found other member sameClass.symm differentModule)

theorem extractDefinition (extracted : Extracted env (some modId))
    (noForeign : NoForeignOverlap env modId definition) (name : ModuleName) :
    Yields (Extracted · (some modId)) (extractDefinition env modId name definition) := by
  cases definition with
  | constant =>
    exact Yields.bind (extracted.addNamedDecl rfl rfl rfl _) fun _ kept => yields_pure kept
  | record =>
    refine yields_step fun _ => ?_
    exact Yields.bind (extracted.addNamedDecl rfl rfl rfl _) fun _ kept => yields_pure kept
  | union _ _ _ _ cases =>
    refine yields_step fun _ => ?_
    exact Yields.bind (extracted.addNamedDecl rfl rfl rfl _) fun _ kept =>
      yields_pure (kept.addUnionCases _ _ cases)
  | function =>
    refine yields_step fun _ => yields_step fun _ => ?_
    refine Yields.bind (extracted.addNamedDecl rfl rfl rfl _) fun _ kept => ?_
    dsimp only
    split
    · exact yields_pure (kept.congr rfl rfl rfl rfl)
    · exact yields_pure kept
  | typeclass vis _ _ methods =>
    refine yields_ite (fun _ => ?_) fun _ => ?_
    · intro _ extractedTo
      obtain ⟨_, raised, -⟩ := bind_eq_ok.mp extractedTo
      exact absurd raised australRaise_ne_ok
    · refine Yields.bind (extracted.addNamedDecl rfl rfl rfl _) fun _ kept => yields_step fun _ => ?_
      exact yields_pure (kept.addTypeClassMethods vis _ methods)
  | instanceDef =>
    exact (extracted.extractInstance noForeign).bind fun _ kept => kept.addInstanceMethods _

/-- Entering a module keeps the invariant: it is the last one, and it imports
instances of modules that are there. -/
theorem extractHeader {imports : List ModuleName} (extracted : Extracted env current)
    (entered : extractHeader env name imports = .ok (env', modId)) :
    Extracted env' (some modId) := by
  unfold AustralVM.extractHeader Env.addModule at entered
  split at entered
  · exact absurd entered australRaise_ne_ok
  rename_i newName
  cases entered
  have earlier : ∀ id ∈ importInstances env imports, ∃ decl ∈ env.decls, decl.id = id ∧
      decl.modId.index < env.modCounter := by
    intro _ member
    simp only [importInstances, mem_dedup, mem_flatMap] at member
    obtain ⟨_, _, member⟩ := member
    split at member
    · obtain ⟨_, instMember, rfl⟩ := mem_map.mp member
      have inDecls := Env.mem_instances.mp (mem_of_mem_filter (mem_of_mem_filter instMember))
      exact ⟨_, inDecls, rfl, (extracted.declBound _ inDecls).2⟩
    · simp at member
  refine ⟨?_, ?_, ?_, ?_, extracted.declIds, ?_, extracted.shaped, ?_, extracted.apart⟩
  · intro record member
    rcases mem_cons.mp member with rfl | old
    · exact Nat.lt_succ_self _
    · exact Nat.lt_succ_of_lt (extracted.modBound record old)
  · rw [map_cons, nodup_cons]
    refine ⟨?_, extracted.modIds⟩
    intro member
    obtain ⟨record, recordMember, sameId⟩ := mem_map.mp member
    have bound := extracted.modBound record recordMember
    rw [sameId] at bound
    exact absurd bound (Nat.lt_irrefl _)
  · rintro _ ⟨⟩
    rfl
  · intro decl member
    obtain ⟨idBound, modBound⟩ := extracted.declBound decl member
    exact ⟨idBound, Nat.lt_succ_of_lt modBound⟩
  · intro record member
    rcases mem_cons.mp member with rfl | old
    · exact ⟨nodup_dedup _, earlier⟩
    · exact extracted.imports record old
  · intro inst member
    obtain ⟨classDecl, classMember, classId, classBefore, named⟩ := extracted.placed inst member
    refine ⟨classDecl, classMember, classId, classBefore, fun typeName args univ argument => ?_⟩
    obtain ⟨record, hasModule, rest⟩ := named typeName args univ argument
    refine ⟨record, ?_, rest⟩
    -- The new module does not hide an old one: its name was not taken.
    have differentName : name ≠ typeName.source := by
      rintro rfl
      rw [hasModule] at newName
      cases newName
    rw [Env.getModuleByName, find?_cons_of_neg (by simpa using differentName)]
    exact hasModule

end Extracted

theorem extracted_of_reached (reached : Reached NoForeignOverlap env place) :
    Extracted env (place.map Prod.fst) := by
  induction reached with
  | start => exact .start
  | header _ entered ih => exact ih.extractHeader entered
  | definition _ noForeign extractedTo ih => exact ih.extractDefinition noForeign _ _ extractedTo

/-! ## Coherence -/

theorem Env.map_id_of_getDeclById {decls : List Decl}
    (lookups : Forall₂ (fun id decl => optionGet (env.getDeclById id) = .ok decl) ids
      decls) : decls.map Decl.id = ids := by
  induction lookups with
  | nil => rfl
  | cons lookup _ ih =>
    have found := find?_some (optionGet_eq_ok.mp lookup)
    rw [map_cons, ih, decide_eq_true_eq.mp found]

namespace Extracted

variable {env : Env} {current : Option ModId} {first second : InstanceDecl}

/-- Overlapping instances of one typeclass are one instance: each of two modules
would have to come before the other. -/
theorem unique_overlap (extracted : Extracted env current) (firstMember : first ∈ env.instances)
    (secondMember : second ∈ env.instances) (sameClass : first.typeclassId = second.typeclassId)
    (overlap : Overlap first.argument second.argument) : first = second := by
  by_contra different
  obtain ⟨_, name, args, univ, firstNamed⟩ :=
    (extracted.apart first firstMember second secondMember sameClass overlap).resolve_left different
  obtain ⟨_, name', args', univ', secondNamed⟩ :=
    (extracted.apart second secondMember first firstMember sameClass.symm
      overlap.symm).resolve_left (Ne.symm different)
  have sameSource : name.source = name'.source := by
    have equalNames := overlap.1
    simp only [firstNamed, secondNamed, overlappingInstances, Except.ok.injEq] at equalNames
    simpa [QIdent.canon] using congrArg QIdent.source (equalQident_eq_true.mp equalNames)
  obtain ⟨class₁, member₁, id₁, _, named₁⟩ := extracted.placed first firstMember
  obtain ⟨class₂, member₂, id₂, _, named₂⟩ := extracted.placed second secondMember
  obtain rfl : class₁ = class₂ :=
    inj_on_of_nodup_map extracted.declIds member₁ member₂ (by rw [id₁, id₂, sameClass])
  obtain ⟨record, hasModule, _, place₁⟩ := named₁ name args univ firstNamed
  obtain ⟨record', hasModule', _, place₂⟩ := named₂ name' args' univ' secondNamed
  obtain rfl : record = record' := by
    rw [sameSource, hasModule'] at hasModule
    exact (Option.some.inj hasModule).symm
  have sameIndex : class₁.modId.index = record.id.index := by
    rcases place₁ with inClass₁ | inType₁ <;> rcases place₂ with inClass₂ | inType₂ <;> grind
  have sameId : class₁.modId = record.id := by
    cases classMod : class₁.modId
    cases recordMod : record.id
    simp_all
  grind

theorem unique_match (extracted : Extracted env current) (firstMember : first ∈ env.instances)
    (secondMember : second ∈ env.instances) (sameClass : first.typeclassId = second.typeclassId)
    (matchedFirst : matchType ⟨env, moduleName⟩ first.argument ty = .ok bindings)
    (matchedSecond : matchType ⟨env, moduleName'⟩ second.argument ty = .ok bindings') :
    first = second := by
  apply extracted.unique_overlap firstMember secondMember sameClass
  constructor
  · exact overlappingInstances_of_match (extracted.shaped first firstMember)
      second.argumentNotTyVar matchedFirst matchedSecond
  · exact overlappingInstances_of_match (extracted.shaped second secondMember)
      first.argumentNotTyVar matchedSecond matchedFirst

/-- A declaration is visible from a module once: the module's own instances are
not among those it imports. -/
theorem visibleInstances_nodup (extracted : Extracted env current)
    (visible : env.visibleInstances modId = .ok instances) :
    instances.Nodup ∧ ∀ decl ∈ instances, decl ∈ env.decls := by
  unfold Env.visibleInstances at visible
  split at visible
  case h_2 => exact absurd visible internalErr_ne_ok
  rename_i record hasModule
  obtain ⟨imported, importedEq, visible⟩ := bind_eq_ok.mp visible
  obtain rfl := pure_eq_ok.mp visible
  have recordMember : record ∈ env.mods := mem_of_find?_eq_some hasModule
  have recordId : record.id = modId := by simpa using find?_some hasModule
  obtain ⟨importsNodup, importsEarlier⟩ := extracted.imports record recordMember
  have lookups := mapM_eq_ok.mp importedEq
  have importedIds := Env.map_id_of_getDeclById lookups
  have importedMember : ∀ decl ∈ imported, decl ∈ env.decls := by
    intro _ member
    obtain ⟨_, _, lookup⟩ := exists_input_of_mem lookups member
    exact mem_of_find?_eq_some (optionGet_eq_ok.mp lookup)
  have ownMember : ∀ inst ∈ env.moduleInstances modId,
      Decl.instanceDecl inst ∈ env.decls ∧ inst.modId = modId := by
    intro _ member
    obtain ⟨inInstances, inModule⟩ := mem_filter.mp member
    exact ⟨Env.mem_instances.mp inInstances, by simpa using inModule⟩
  constructor
  · refine List.Nodup.append ?_ ?_ ?_
    · refine List.Nodup.map (fun _ _ equal => Decl.instanceDecl.inj equal) (List.Nodup.filter _ ?_)
      refine List.Nodup.filterMap ?_ extracted.declIds.of_map
      intro _ _ _ ofFirst ofSecond
      rw [Decl.instance?_eq_some.mp ofFirst, Decl.instance?_eq_some.mp ofSecond]
    · exact List.Nodup.of_map Decl.id (importedIds ▸ importsNodup)
    · intro _ own isImported
      obtain ⟨inst, instMember, rfl⟩ := mem_map.mp own
      obtain ⟨_, importedDeclMember, sameId, earlier⟩ :=
        importsEarlier inst.id (importedIds ▸ mem_map_of_mem isImported)
      obtain rfl := inj_on_of_nodup_map extracted.declIds importedDeclMember
        (ownMember inst instMember).1 sameId
      rw [recordId, ← (ownMember inst instMember).2] at earlier
      exact Nat.lt_irrefl _ earlier
  · intro decl member
    rcases mem_append.mp member with own | isImported
    · obtain ⟨inst, instMember, rfl⟩ := mem_map.mp own
      exact (ownMember inst instMember).1
    · exact importedMember decl isImported

end Extracted

theorem reduceOption_length_le_one {α β : Type} {gives : α → Option β → Prop} {inputs : List α}
    {candidates : List (Option β)} (each : Forall₂ gives inputs candidates)
    (distinct : inputs.Nodup) (unique : ∀ first ∈ inputs, ∀ second ∈ inputs, ∀ candidate candidate',
      gives first (some candidate) → gives second (some candidate') → first = second) :
    candidates.reduceOption.length ≤ 1 := by
  induction each with
  | nil => simp
  | @cons input candidate inputs candidates given each ih =>
    obtain ⟨notInRest, distinctRest⟩ := nodup_cons.mp distinct
    have restUnique := ih distinctRest fun first firstMember second secondMember =>
      unique first (mem_cons_of_mem _ firstMember) second
        (mem_cons_of_mem _ secondMember)
    cases candidate with
    | none => simpa using restUnique
    | some candidate =>
      have restEmpty : candidates.reduceOption = [] := by
        rw [eq_nil_iff_forall_not_mem]
        intro other member
        obtain ⟨second, secondMember, givenSecond⟩ :=
          exists_input_of_mem each (reduceOption_mem_iff.mp member)
        obtain rfl := unique input mem_cons_self second
          (mem_cons_of_mem _ secondMember) candidate other given givenSecond
        exact notInRest secondMember
      simp [restEmpty]

theorem Extracted.coherent (extracted : Extracted env current) : Coherent env := by
  constructor
  · intro _ _ _ _ _ _ _ firstMember secondMember
    exact extracted.unique_match firstMember secondMember
  · intro _ _ _ _ _ _ _ visible each
    obtain ⟨distinct, inDecls⟩ := extracted.visibleInstances_nodup visible
    refine reduceOption_length_le_one each distinct ?_
    rintro _ firstMember _ secondMember ⟨_, _⟩ ⟨_, _⟩ given given'
    obtain ⟨rfl, ofClass, matched⟩ := instanceCandidate_eq_some.mp given
    obtain ⟨rfl, ofClass', matched'⟩ := instanceCandidate_eq_some.mp given'
    rw [extracted.unique_match (Env.mem_instances.mpr (inDecls _ firstMember))
      (Env.mem_instances.mpr (inDecls _ secondMember)) (ofClass.trans ofClass'.symm) matched
      matched']

theorem reached_of_definitions {definitions : List Definition}
    (alwaysAllowed : ∀ definition ∈ definitions, ∀ env modId, allowed env modId definition)
    (reached : Reached allowed env (some (modId, name))) (extractedTo : definitions.foldlM
      (fun env definition => extractDefinition env modId name definition) env = .ok env') :
    Reached allowed env' (some (modId, name)) := by
  induction definitions generalizing env with
  | nil =>
    obtain rfl := pure_eq_ok.mp extractedTo
    exact reached
  | cons definition _ ih =>
    rw [foldlM_cons] at extractedTo
    obtain ⟨_, definitionTo, restTo⟩ := bind_eq_ok.mp extractedTo
    have reachedBetween := reached.definition
      (alwaysAllowed definition mem_cons_self env modId) definitionTo
    exact ih (forall_mem_cons.mp alwaysAllowed).2
      reachedBetween restTo

theorem reached_of_extractModules {sources : List ModuleSource}
    (alwaysAllowed : ∀ source ∈ sources, ∀ definition ∈ source.definitions,
      ∀ env modId, allowed env modId definition) (reached : Reached allowed env place)
    (extractedTo : extractModules env sources = .ok env') :
    ∃ place', Reached allowed env' place' := by
  induction sources generalizing env place with
  | nil =>
    obtain rfl := pure_eq_ok.mp extractedTo
    exact ⟨place, reached⟩
  | cons source _ ih =>
    rw [extractModules, foldlM_cons] at extractedTo
    obtain ⟨_, moduleTo, restTo⟩ := bind_eq_ok.mp extractedTo
    obtain ⟨⟨_, _⟩, header, definitionsTo⟩ := bind_eq_ok.mp moduleTo
    have reachedBetween := reached_of_definitions (alwaysAllowed source mem_cons_self)
      (reached.header header) definitionsTo
    exact ih (forall_mem_cons.mp alwaysAllowed).2
      reachedBetween restTo

/-- No run that leaves the built-in types other modules have taken up alone
makes two instances of a typeclass match one type. -/
theorem reached_coherent {env : Env} {place : Option (ModId × ModuleName)}
    (reached : Reached NoForeignOverlap env place) : Coherent env :=
  (extracted_of_reached reached).coherent

section Programs

/-- The typeclass `Printable` of the module `Pretty`. -/
def printable : Definition :=
  .typeclass .visPublic ⟨"Printable"⟩
    ⟨⟨"T"⟩, .free, ⟨⟨"Pretty"⟩, ⟨"Printable"⟩, ⟨"Printable"⟩⟩, []⟩ []

/-- An instance of `Printable` for `Int32`. -/
def printableInt32 : Definition :=
  .instanceDef .visPublic ⟨⟨"Pretty"⟩, ⟨"Printable"⟩, ⟨"Printable"⟩⟩ []
    (.integer .signed .width32) []

/-- Both of two modules make `Int32` printable. -/
def conflictingProgram : List ModuleSource :=
  [⟨⟨"Pretty"⟩, [], [printable]⟩, ⟨⟨"First"⟩, [⟨"Pretty"⟩], [printableInt32]⟩,
    ⟨⟨"Second"⟩, [⟨"Pretty"⟩], [printableInt32]⟩]

/-- Two different instances of one typeclass for `Int32`. -/
def conflictAtInt32 (env : Env) : Bool :=
  match env.instances with
  | [first, second] =>
    first.id ≠ second.id && first.typeclassId = second.typeclassId &&
      (first.argument matches .integer .signed .width32) &&
      (second.argument matches .integer .signed .width32)
  | _ => false

theorem not_coherent_of_conflictAtInt32 (conflict : conflictAtInt32 env = true) :
    ¬ Coherent env := by
  intro coherent
  unfold conflictAtInt32 at conflict
  split at conflict
  · rename_i first second instancesEq
    simp only [Bool.and_eq_true, decide_eq_true_eq] at conflict
    obtain ⟨⟨⟨different, sameClass⟩, firstInt⟩, secondInt⟩ := conflict
    have firstMatches : matchType ⟨env, ⟨"Pretty"⟩⟩ first.argument (.integer .signed .width32) =
        .ok .empty := by
      split at firstInt <;> simp_all [matchType]
    have secondMatches : matchType ⟨env, ⟨"Pretty"⟩⟩ second.argument (.integer .signed .width32) =
        .ok .empty := by
      split at secondInt <;> simp_all [matchType]
    exact different (congrArg InstanceDecl.id (coherent.1 _ _ _ first second _ _
      (by simp [instancesEq]) (by simp [instancesEq]) sameClass firstMatches secondMatches))
  · cases conflict

/-- The module of pointers, and a module that declares a type and makes it printable. -/
def printableProgram : List ModuleSource :=
  [⟨memoryModuleName, [], [.record .visOpaque ⟨"Pointer"⟩
      [⟨⟨"T"⟩, .type, ⟨memoryModuleName, ⟨"Pointer"⟩, ⟨"Pointer"⟩⟩, []⟩] .free []]⟩,
    ⟨⟨"Pretty"⟩, [], [printable]⟩,
    ⟨⟨"Shapes"⟩, [⟨"Pretty"⟩],
      [.record .visPublic ⟨"Point"⟩ [] .free [],
        .instanceDef .visPublic ⟨⟨"Pretty"⟩, ⟨"Printable"⟩, ⟨"Printable"⟩⟩ []
          (.namedType ⟨⟨"Shapes"⟩, ⟨"Point"⟩, ⟨"Point"⟩⟩ [] .free) []]⟩]

theorem reached_coherent_at_printableProgram :
    ∃ env current, extractModules emptyEnv printableProgram = .ok env ∧
      Reached NoForeignOverlap env current ∧ env.instances.length = 1 ∧ Coherent env := by
  obtain ⟨env, extractedTo, oneInstance⟩ := exists_eq_ok_of_any
    (show (extractModules emptyEnv printableProgram).toOption.any
      (fun env => env.instances.length = 1) = true by decide +kernel)
  have alwaysAllowed : ∀ source ∈ printableProgram, ∀ definition ∈ source.definitions,
      ∀ env modId, NoForeignOverlap env modId definition := by
    simp [printableProgram, printable, NoForeignOverlap]
  obtain ⟨current, reached⟩ := reached_of_extractModules alwaysAllowed .start extractedTo
  exact ⟨env, current, extractedTo, reached, by simpa using oneInstance, reached_coherent reached⟩

theorem builtin_instances_conflict :
    ∃ env current, extractModules emptyEnv conflictingProgram = .ok env ∧
      Reached (fun _ _ _ => True) env current ∧ ¬ Coherent env := by
  obtain ⟨env, extractedTo, conflict⟩ := exists_eq_ok_of_any
    (show (extractModules emptyEnv conflictingProgram).toOption.any conflictAtInt32 = true by
      decide +kernel)
  obtain ⟨current, reached⟩ := reached_of_extractModules (fun _ _ _ _ _ _ => trivial) .start extractedTo
  exact ⟨env, current, extractedTo, reached, not_coherent_of_conflictAtInt32 conflict⟩

end Programs

end AustralVM
