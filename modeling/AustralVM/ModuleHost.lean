import AustralVM.CpsReader
import AustralVM.ModuleManifest
import Mathlib.Logic.Relation

/-!
# The module host

Loading a module from its directory and replacing it while it runs.  A load asks
the resolver whether the archetype is approved; a swap compares what the two
manifests grant.  The resolver, the sidecars of ECMAScript modules and the
linker are parameters.
-/

namespace AustralVM.Host

open Auth AustralVM.Comp

/-! ## Loading and swapping -/

inductive RuntimeChoice
  | profile (id : String)
  | rejected (requested : String)
  deriving DecidableEq, Repr

/-- The sidecars of ECMAScript modules, in a host that is built with them. -/
structure EcmaSupport (Sidecar : Type) where
  Paths : Type
  workerdPaths : Except String Paths
  spawn : Directory → String → ModuleManifest → Paths → Except String Sidecar

/-- What the host uses and does not implement.  The resolver takes the approved
archetypes, the choice of the organisation and of the scope, the default and the
request. -/
structure Services (Sidecar : Type) where
  toml : Toml
  lossy : Utf8Lossy
  cranelift : Cranelift
  finalize : CpsProgram → Except String Unit
  ecmascript : Option (EcmaSupport Sidecar)
  harnessOrg : Option String
  resolve : List String → Option String → Option String → String → Option String → RuntimeChoice

inductive IrRuntime (Sidecar : Type)
  | jit (program : CpsProgram) (cpsData : ByteArray)
  | ecma (sidecar : Sidecar)

structure ModuleHandle (Sidecar : Type) where
  manifest : ModuleManifest
  runtime : IrRuntime Sidecar
  callCount : Nat

/-- A host with its authorization state; every module is kept under its name. -/
structure ModuleHost (Sidecar : Type) where
  modules : AList fun _ : String => ModuleHandle Sidecar
  auth : AuthState
  named : ∀ name handle, modules.lookup name = some handle → handle.manifest.name = name

namespace ModuleHost

variable {Sidecar : Type}

def new : ModuleHost Sidecar := ⟨∅, .initial, by simp⟩

/-- Keep a module under its name, in the place of the one that had it. -/
def insert (host : ModuleHost Sidecar) (handle : ModuleHandle Sidecar) : ModuleHost Sidecar where
  modules := host.modules.insert handle.manifest.name handle
  auth := host.auth
  named := by
    intro name other found
    by_cases sameName : name = handle.manifest.name
    · subst sameName
      rw [AList.lookup_insert] at found
      rw [← Option.some.inj found]
    · rw [AList.lookup_insert_ne sameName] at found
      exact host.named name other found

/-- Make an engine the one that decides, for the module of a name. -/
def authorize (host : ModuleHost Sidecar) (engine : ManifestAuthEngine) (principal : String) :
    ModuleHost Sidecar :=
  { host with auth := ⟨some engine.authorize, host.auth.manifestEngine, some principal⟩ }

end ModuleHost

namespace Services

variable {Sidecar : Type} {services : Services Sidecar} {host next : ModuleHost Sidecar}
  {handle : ModuleHandle Sidecar} {dir : Directory}

def resolveRuntimeChoice (services : Services Sidecar) (manifest : ModuleManifest) :
    Except String String :=
  match services.resolve manifest.archetypes (services.harnessOrg.filter (· ≠ "")) none
      "austral_cps" (some manifest.archetype) with
  | .profile id => .ok id
  | .rejected requested =>
    .error ("UK-4001: archetype '" ++ requested ++ "' is not approved for module '" ++
      manifest.name ++ "'")

/-- The check of the archetype that a load makes. -/
def checkArchetype (services : Services Sidecar) (manifest : ModuleManifest) :
    Except String Unit := do
  let resolved ← services.resolveRuntimeChoice manifest
  if resolved = manifest.archetype then .ok ()
  else
    .error ("UK-4001: archetype '" ++ manifest.archetype ++ "' resolved to '" ++ resolved ++
      "' which the loader does not map; add an adapter for the resolved profile")

def readManifest (services : Services Sidecar) (dir : Directory) :
    Except String (String × ModuleManifest) :=
  match dir.readToString "module.toml" with
  | .error error => .error ("cannot read " ++ dir.join "module.toml" ++ ": " ++ error)
  | .ok text => (text, ·) <$> ModuleManifest.fromTomlStr services.toml text

def readEngine (services : Services Sidecar) (text : String) : Except String ManifestAuthEngine :=
  match ManifestAuthEngine.fromTomlStr (tomlReader services.toml) text with
  | .error error => .error ("manifest auth error: " ++ error)
  | .ok engine => .ok engine

def readCps (dir : Directory) : Except String ByteArray :=
  match dir.read "module.cps" with
  | .error error => .error ("cannot read " ++ dir.join "module.cps" ++ ": " ++ error)
  | .ok bytes => .ok bytes

def compileCpsBinary (services : Services Sidecar) (auth : AuthState) (data : ByteArray) :
    Except String CpsProgram := do
  let compiled ← compileCpsToClif services.cranelift services.lossy auth ⟨[], []⟩ data.data.toList
  services.finalize compiled.program
  return compiled.program

/-- Start what a manifest asks for: a sidecar, or the compiled binary. -/
def start (services : Services Sidecar) (auth : AuthState) (dir : Directory)
    (manifest : ModuleManifest) (cpsData : Except String ByteArray) :
    Except String (ModuleHandle Sidecar) :=
  if manifest.archetype = "ecmascript" then
    match services.ecmascript with
    | none => .error "archetype 'ecmascript' requires the 'ecmascript' feature (workerd sidecar)"
    | some support => do
      let paths ← support.workerdPaths
      let sidecar ← support.spawn dir (dir.join ".unfer-ecma") manifest paths
      return ⟨manifest, .ecma sidecar, 0⟩
  else do
    let cpsData ← cpsData
    let program ← services.compileCpsBinary auth cpsData
    return ⟨manifest, .jit program cpsData, 0⟩

/-- Load a module.  The engine is in place before the archetype is checked and
stays if the load fails later. -/
def load (services : Services Sidecar) (host : ModuleHost Sidecar) (dir : Directory) :
    Except String (ModuleHandle Sidecar) × ModuleHost Sidecar :=
  match services.readManifest dir with
  | .error error => (.error error, host)
  | .ok (text, manifest) =>
    match services.readEngine text with
    | .error error => (.error error, host)
    | .ok engine =>
      let host := host.authorize engine manifest.name
      match services.checkArchetype manifest with
      | .error error => (.error error, host)
      | .ok () =>
        match services.start host.auth dir manifest (readCps dir) with
        | .error error => (.error error, host)
        | .ok handle => (.ok handle, host.insert handle)

/-- A namespace of grants must not grow on a swap. -/
def checkEscalation (kind : String) (old new : List String) : Except String Unit :=
  match new.find? (· ∉ old) with
  | some grant =>
    .error ("UK-4001 swap rejected: new module escalates " ++ kind ++ " '" ++ grant ++ "'")
  | none => .ok ()

/-- The checks of a swap, and the binary that it reads even for a sidecar. -/
def swapCandidate (services : Services Sidecar) (old : ModuleManifest) (dir : Directory) :
    Except String (String × ModuleManifest × ByteArray) := do
  let (text, new) ← services.readManifest dir
  if new.name ≠ old.name then
    .error ("swap rejected: module name mismatch ('" ++ old.name ++ "' vs '" ++ new.name ++ "')")
  checkEscalation "grant" old.grants new.grants
  checkEscalation "fs grant" old.fsGrants new.fsGrants
  checkEscalation "effect grant" old.effects new.effects
  checkEscalation "net grant" old.netGrants new.netGrants
  let cpsData ← readCps dir
  return (text, new, cpsData)

/-- Replace a running module.  The archetype is not checked again. -/
def swap (services : Services Sidecar) (host : ModuleHost Sidecar) (moduleName : String)
    (dir : Directory) : Except String Unit × ModuleHost Sidecar :=
  match host.modules.lookup moduleName with
  | none => (.error ("module '" ++ moduleName ++ "' not loaded"), host)
  | some old =>
    match services.swapCandidate old.manifest dir with
    | .error error => (.error error, host)
    | .ok (text, new, cpsData) =>
      match services.readEngine text with
      | .error error => (.error error, host)
      | .ok engine =>
        let host := host.authorize engine new.name
        match services.start host.auth dir new (.ok cpsData) with
        | .error error => (.error error, host)
        | .ok handle => (.ok (), host.insert handle)

/-! ## What a load and a swap have checked -/

theorem start_eq_ok (started : services.start auth dir manifest cpsData = .ok handle) :
    handle.manifest = manifest := by
  rw [start] at started
  split_ifs at started with isSidecar
  · cases support? : services.ecmascript with
    | none =>
      rw [support?] at started
      cases started
    | some support =>
      rw [support?] at started
      obtain ⟨_, -, rest⟩ := bind_eq_ok.mp started
      obtain ⟨_, -, rest⟩ := bind_eq_ok.mp rest
      rw [← pure_eq_ok.mp rest]
  · obtain ⟨_, -, rest⟩ := bind_eq_ok.mp started
    obtain ⟨_, -, rest⟩ := bind_eq_ok.mp rest
    rw [← pure_eq_ok.mp rest]

theorem load_eq_ok (loaded : services.load host dir = (.ok handle, next)) :
    ∃ text engine, services.readManifest dir = .ok (text, handle.manifest) ∧
      services.readEngine text = .ok engine ∧ services.checkArchetype handle.manifest = .ok () ∧
      next = (host.authorize engine handle.manifest.name).insert handle := by
  rw [load] at loaded
  split at loaded
  · cases loaded
  next text manifest readManifest =>
    split at loaded
    · cases loaded
    next engine readEngine =>
      dsimp only at loaded
      split at loaded
      · cases loaded
      next checked =>
        split at loaded
        · cases loaded
        next handle' started =>
          cases loaded
          cases start_eq_ok started
          exact ⟨text, engine, readManifest, readEngine, checked, rfl⟩

theorem checkEscalation_eq_ok : checkEscalation kind old new = .ok () ↔ new ⊆ old := by
  rw [checkEscalation]
  cases found : new.find? (· ∉ old) with
  | none =>
    simp only [true_iff]
    intro grant inNew
    simpa using List.find?_eq_none.mp found grant inNew
  | some =>
    refine iff_of_false nofun fun contained => ?_
    have outside := List.find?_some found
    exact of_decide_eq_true outside (contained (List.mem_of_find?_eq_some found))

structure NoEscalation (old new : ModuleManifest) : Prop where
  grants : new.grants ⊆ old.grants
  fsGrants : new.fsGrants ⊆ old.fsGrants
  effects : new.effects ⊆ old.effects
  netGrants : new.netGrants ⊆ old.netGrants

theorem swapCandidate_eq_ok (passed : services.swapCandidate old dir = .ok (text, new, cpsData)) :
    services.readManifest dir = .ok (text, new) ∧ new.name = old.name ∧ NoEscalation old new := by
  rw [swapCandidate] at passed
  obtain ⟨⟨_, _⟩, read, rest⟩ := bind_eq_ok.mp passed
  dsimp only at rest
  split_ifs at rest with mismatch
  · cases rest
  obtain ⟨⟨⟩, grants, rest⟩ := bind_eq_ok.mp rest
  obtain ⟨⟨⟩, fsGrants, rest⟩ := bind_eq_ok.mp rest
  obtain ⟨⟨⟩, effects, rest⟩ := bind_eq_ok.mp rest
  obtain ⟨⟨⟩, netGrants, rest⟩ := bind_eq_ok.mp rest
  obtain ⟨_, -, rest⟩ := bind_eq_ok.mp rest
  cases pure_eq_ok.mp rest
  exact ⟨read, not_not.mp mismatch, checkEscalation_eq_ok.mp grants,
    checkEscalation_eq_ok.mp fsGrants, checkEscalation_eq_ok.mp effects,
    checkEscalation_eq_ok.mp netGrants⟩

theorem swap_eq_ok (swapped : services.swap host moduleName dir = (.ok (), next)) :
    ∃ old handle text engine, host.modules.lookup moduleName = some old ∧
      services.readManifest dir = .ok (text, handle.manifest) ∧
      services.readEngine text = .ok engine ∧ handle.manifest.name = moduleName ∧
      NoEscalation old.manifest handle.manifest ∧
      next = (host.authorize engine moduleName).insert handle := by
  rw [swap] at swapped
  split at swapped
  · cases swapped
  next old found =>
    split at swapped
    · cases swapped
    next text new cpsData passed =>
      split at swapped
      · cases swapped
      next engine readEngine =>
        dsimp only at swapped
        split at swapped
        · cases swapped
        next handle started =>
          obtain ⟨read, sameName, noEscalation⟩ := swapCandidate_eq_ok passed
          cases start_eq_ok started
          rw [host.named moduleName old found] at sameName
          cases swapped
          exact ⟨old, handle, text, engine, found, read, readEngine, sameName, noEscalation,
            by rw [sameName]⟩

end Services

end AustralVM.Host
