import AustralVM.ModuleHost

/-!
# Permissions across hot swaps

A swap compares four namespaces of the manifest and leaves the others to the
incoming module.  In a run of swaps that keep to the other namespaces too, and
to approved archetypes, a module never gains a permission.
-/

namespace AustralVM.Host

open Auth Relation ManifestAuthEngine

inductive Permission
  | call (symbol : String)
  | effect (name : String)
  | observe (effect : String)
  | file (path : String)
  | network (host : String)
  | observer (principal : String)
  | resource (id : String)
  deriving DecidableEq, Repr

/-- The permissions that the manifest of a handle gives. -/
def ModuleManifest.Lists (manifest : ModuleManifest) : Permission → Prop
  | .call symbol => symbol ∈ manifest.grants
  | .effect name => name ∈ manifest.effects
  | .observe effect => (effect, "observe") ∈ manifest.effectKinds
  | .file path => path ∈ manifest.fsGrants
  | .network host => host ∈ manifest.netGrants
  | .observer principal => principal ∈ manifest.observers
  | .resource id => id ∈ manifest.resources

/-- The permissions that an authorization engine gives. -/
def EngineAllows (engine : AuthorizationEngine) (principal : String) : Permission → Prop
  | .call symbol => engine principal "Call" symbol = .ok .allow
  | .effect name => engine principal "Effect" name = .ok .allow
  | _ => False

variable {Sidecar : Type}

/-- A running module holds what its manifest lists and what the engine allows it. -/
def ModuleHost.Holds (host : ModuleHost Sidecar) (name : String) (permission : Permission) :
    Prop :=
  (∃ handle ∈ host.modules.lookup name, handle.manifest.Lists permission) ∨
    EngineAllows host.auth.engine name permission

namespace Services

/-- What the manifest in a directory lists under a key of the grants. -/
def listed (services : Services Sidecar) (dir : Directory) (key : String) : List String :=
  match dir.readToString "module.toml" with
  | .error _ => []
  | .ok text =>
    match services.toml text with
    | .error _ => []
    | .ok value => value.grant key

/-- The manifest of a directory passes the check that a load makes. -/
def Approved (services : Services Sidecar) (dir : Directory) : Prop :=
  ∀ text manifest, services.readManifest dir = .ok (text, manifest) →
    services.checkArchetype manifest = .ok ()

/-- A directory keeps to what an original one lists in the namespaces that a swap
does not compare. -/
structure Keeps (services : Services Sidecar) (original dir : Directory) : Prop where
  observers : services.listed dir "observers" ⊆ services.listed original "observers"
  resources : services.listed dir "resources" ⊆ services.listed original "resources"
  zenodo : services.listed dir "zenodo" ⊆ services.listed original "zenodo"
  approved : services.Approved dir

/-- A successful swap of some module, which keeps to the original directory if it
is the module of that name. -/
def KeepingSwap (services : Services Sidecar) (original : Directory) (name : String)
    (host next : ModuleHost Sidecar) : Prop :=
  ∃ moduleName dir, services.swap host moduleName dir = (.ok (), next) ∧
    (moduleName = name → services.Keeps original dir)

variable {services : Services Sidecar} {dir original : Directory} {text name : String}
  {manifest : ModuleManifest} {engine : ManifestAuthEngine}
  {host next loaded before : ModuleHost Sidecar} {handle first : ModuleHandle Sidecar}

section

variable (read : services.readManifest dir = .ok (text, manifest))
include read

theorem readManifest_eq_ok : dir.readToString "module.toml" = .ok text ∧
      ModuleManifest.fromTomlStr services.toml text = .ok manifest := by
  rw [readManifest] at read
  cases readable : dir.readToString "module.toml" with
  | error =>
    rw [readable] at read
    cases read
  | ok =>
    rw [readable] at read
    obtain ⟨_, parsed, same⟩ := Comp.map_eq_ok.mp read
    cases same
    exact ⟨rfl, parsed⟩

theorem listed_of_readManifest : services.listed dir "observers" = manifest.observers ∧
      services.listed dir "resources" = manifest.resources := by
  obtain ⟨readable, parsed⟩ := readManifest_eq_ok read
  rw [ModuleManifest.fromTomlStr] at parsed
  rw [listed, listed, readable]
  dsimp only
  cases isValue : services.toml text with
  | error =>
    rw [isValue] at parsed
    cases parsed
  | ok =>
    rw [isValue] at parsed
    dsimp only at parsed
    rw [ModuleManifest.ofValue] at parsed
    split at parsed
    · cases parsed
    split at parsed
    · cases parsed
    · cases parsed
      exact ⟨rfl, rfl⟩

theorem readEngine_eq_ok (readEngine : services.readEngine text = .ok engine) :
    ∃ declared : ManifestToml, ofManifest declared = .ok engine ∧
      declared.moduleName = manifest.name ∧ declared.kernel = manifest.grants ∧
      declared.effects = manifest.effects ∧ declared.zenodo = services.listed dir "zenodo" ∧
      manifest.effectKinds = [] := by
  obtain ⟨readable, parsed⟩ := readManifest_eq_ok read
  rw [Services.readEngine] at readEngine
  split at readEngine
  · cases readEngine
  next engine' made =>
    cases readEngine
    rw [fromTomlStr] at made
    split at made
    · cases made
    next declared accepted =>
      obtain ⟨sameName, kernel, effects, plain⟩ := manifests_agree parsed accepted
      refine ⟨declared, made, sameName, kernel, effects, ?_, plain⟩
      obtain ⟨value, value?, deserialized⟩ := Comp.bind_eq_ok.mp accepted
      rw [listed, readable]
      simp only [value?]
      exact (deserializeManifest_eq_ok deserialized).2.2.2.1.symm

theorem engineAllows_iff (readEngine : services.readEngine text = .ok engine) (principal : String)
    (permission : Permission) :
    EngineAllows engine.authorize principal permission ↔ manifest.name = principal ∧
      match permission with
      | .call symbol => symbol ∈ manifest.grants ∨ symbol ∈ services.listed dir "zenodo"
      | .effect name => name ∈ manifest.effects
      | _ => False := by
  obtain ⟨_, made, sameName, kernel, effects, zenodo, -⟩ := readEngine_eq_ok read readEngine
  rw [← sameName, ← kernel, ← effects, ← zenodo]
  cases permission with
  | call | effect =>
    rw [EngineAllows, authorize_eq_allow_iff, mem_namespaceOf_ofManifest made]
    simp [ManifestToml.listed]
  | observe | file | network | observer | resource => simp [EngineAllows]

end

/-! ## One swap -/

theorem lookup_insert (host : ModuleHost Sidecar) (handle : ModuleHandle Sidecar) :
    (host.insert handle).modules.lookup handle.manifest.name = some handle :=
  AList.lookup_insert host.modules

/-- After a load the module holds what its directory lists, in the namespaces that
a swap does not compare too. -/
theorem holds_of_load (loads : services.load host original = (.ok handle, loaded)) :
    (∀ principal ∈ services.listed original "observers",
        loaded.Holds handle.manifest.name (.observer principal)) ∧
      (∀ id ∈ services.listed original "resources",
        loaded.Holds handle.manifest.name (.resource id)) ∧
      ∀ symbol ∈ services.listed original "zenodo",
        loaded.Holds handle.manifest.name (.call symbol) := by
  obtain ⟨_, _, read, readEngine, -, rfl⟩ := load_eq_ok loads
  obtain ⟨observers, resources⟩ := listed_of_readManifest read
  rw [observers, resources]
  refine ⟨fun principal isListed => ?_, fun id isListed => ?_, fun symbol isListed => ?_⟩
  · exact .inl ⟨handle, lookup_insert _ handle, isListed⟩
  · exact .inl ⟨handle, lookup_insert _ handle, isListed⟩
  · exact .inr ((engineAllows_iff read readEngine _ _).mpr ⟨rfl, .inr isListed⟩)

/-- The module of a name holds nothing that it did not hold in an earlier host, and
its archetype is one that a load approves. -/
structure Within (services : Services Sidecar) (loaded : ModuleHost Sidecar) (name : String)
    (host : ModuleHost Sidecar) : Prop where
  holds : ∀ permission, host.Holds name permission → loaded.Holds name permission
  running : ∃ handle, host.modules.lookup name = some handle ∧
    services.checkArchetype handle.manifest = .ok ()

theorem within_of_load (loads : services.load before original = (.ok first, loaded)) :
    Within services loaded first.manifest.name loaded := by
  obtain ⟨_, _, -, -, approved, rfl⟩ := load_eq_ok loads
  exact ⟨fun _ held => held, first, lookup_insert _ first, approved⟩

section

variable (within : Within services loaded first.manifest.name host)
  (loads : services.load before original = (.ok first, loaded))
include within loads

theorem Within.lists_incoming (found : host.modules.lookup first.manifest.name = some old)
    (read : services.readManifest dir = .ok (text, manifest))
    (readEngine : services.readEngine text = .ok engine)
    (noEscalation : NoEscalation old.manifest manifest) (keeps : services.Keeps original dir)
    (lists : manifest.Lists permission) : loaded.Holds first.manifest.name permission := by
  obtain ⟨observers, resources⟩ := listed_of_readManifest read
  obtain ⟨fromObservers, fromResources, -⟩ := holds_of_load loads
  have compared : old.manifest.Lists permission → loaded.Holds first.manifest.name permission :=
    fun listedBefore => within.holds permission (.inl ⟨old, found, listedBefore⟩)
  cases permission with
  | call => exact compared (noEscalation.grants lists)
  | effect => exact compared (noEscalation.effects lists)
  | observe =>
    obtain ⟨-, -, -, -, -, -, plain⟩ := readEngine_eq_ok read readEngine
    rw [ModuleManifest.Lists, plain] at lists
    cases lists
  | file => exact compared (noEscalation.fsGrants lists)
  | network => exact compared (noEscalation.netGrants lists)
  | observer principal => exact fromObservers principal (keeps.observers (observers.symm ▸ lists))
  | resource id => exact fromResources id (keeps.resources (resources.symm ▸ lists))

theorem Within.swap_own (swapped : services.swap host first.manifest.name dir = (.ok (), next))
    (keeps : services.Keeps original dir) : Within services loaded first.manifest.name next := by
  obtain ⟨_, handle, text, engine, found, read, readEngine, sameName, noEscalation, rfl⟩ :=
    swap_eq_ok swapped
  have incoming {permission : Permission} (lists : handle.manifest.Lists permission) :
      loaded.Holds first.manifest.name permission :=
    within.lists_incoming loads found read readEngine noEscalation keeps lists
  have inserted := lookup_insert (host.authorize engine first.manifest.name) handle
  rw [sameName] at inserted
  refine ⟨?_, handle, inserted, keeps.approved text handle.manifest read⟩
  rintro permission (⟨_, runs, lists⟩ | allows)
  · cases inserted.symm.trans runs
    exact incoming lists
  · have granted := ((engineAllows_iff read readEngine _ permission).mp allows).2
    cases permission with
    | call symbol =>
      rcases granted with inGrants | inZenodo
      · exact incoming inGrants
      · exact (holds_of_load loads).2.2 symbol (keeps.zenodo inZenodo)
    | effect => exact incoming granted
    | observe | file | network | observer | resource => exact granted.elim

end

theorem Within.swap_other (within : Within services loaded name host)
    (swapped : services.swap host moduleName dir = (.ok (), next)) (other : moduleName ≠ name) :
    Within services loaded name next := by
  obtain ⟨_, handle, _, engine, -, read, readEngine, rfl, -, rfl⟩ := swap_eq_ok swapped
  have kept : ((host.authorize engine handle.manifest.name).insert handle).modules.lookup name =
      host.modules.lookup name := AList.lookup_insert_ne other.symm
  refine ⟨?_, ?_⟩
  · rintro permission (⟨running, runs, lists⟩ | allows)
    · rw [kept] at runs
      exact within.holds permission (.inl ⟨running, runs, lists⟩)
    · exact absurd ((engineAllows_iff read readEngine _ permission).mp allows).1 other
  · rw [kept]
    exact within.running

/-! ## Runs of swaps -/

/-- In every run of swaps that keep to the original directory in the namespaces that
a swap does not compare, the module gains no permission and its archetype stays one
that a load approves. -/
theorem swaps_gain_nothing (loads : services.load before original = (.ok first, loaded))
    (run : ReflTransGen (services.KeepingSwap original first.manifest.name) loaded host) :
    (∀ permission, host.Holds first.manifest.name permission →
        loaded.Holds first.manifest.name permission) ∧
      ∃ running, host.modules.lookup first.manifest.name = some running ∧
        services.checkArchetype running.manifest = .ok () := by
  suffices within : Within services loaded first.manifest.name host from
    ⟨within.holds, within.running⟩
  induction run with
  | refl => exact within_of_load loads
  | tail _ step within =>
    obtain ⟨moduleName, _, swapped, keeps⟩ := step
    by_cases own : moduleName = first.manifest.name
    · subst own
      exact within.swap_own loads swapped (keeps rfl)
    · exact within.swap_other swapped own

/-- A manifest that may list a principal to observe. -/
def demoManifest (observers : String) : String :=
  "[module]\nname=\"demo\"\narchetype=\"ecmascript\"\narchetypes=[\"ecmascript\"]\n" ++
    "[grants]\nkernel=[\"uk_audit\"]\nobservers=[" ++ observers ++ "]\n"

def demoTable (observers : List String) : TomlValue := .table [
  ("module", .table [("name", .string "demo"), ("archetype", .string "ecmascript"),
    ("archetypes", .array [.string "ecmascript"])]),
  ("grants", .table [("kernel", .array [.string "uk_audit"]),
    ("observers", .array (observers.map .string))])]

def demoToml : Toml := fun text =>
  if text = demoManifest "" then .ok (demoTable [])
  else if text = demoManifest "\"payroll\"" then .ok (demoTable ["payroll"])
  else .error "unknown manifest"

/-- A host whose resolver approves what the manifest approves. -/
def demoServices : Services Unit where
  toml := demoToml
  lossy := .replacing
  cranelift := .obliging
  finalize := fun _ => .ok ()
  ecmascript := some ⟨Unit, .ok (), fun _ _ _ _ => .ok ()⟩
  harnessOrg := none
  resolve approved _ _ default request :=
    match request with
    | none => .profile default
    | some requested =>
      if requested = default ∨ requested ∈ approved then .profile requested
      else .rejected requested

def demoDirectory (observers : String) : Directory where
  path := "demo"
  files := [("module.toml", .ok (demoManifest observers).toUTF8), ("module.cps", .ok .empty)]
  named := by simp

def demoHandle (observers : List String) : ModuleHandle Unit where
  manifest := ⟨"demo", "0.0.0", ["ecmascript"], "ecmascript", "run", ["uk_audit"], [], [],
    observers, [], [], [], none, none, .enabled⟩
  runtime := .ecma ()
  callCount := 0

set_option maxRecDepth 4096 in
/-- A module swapped for one that may observe nothing. -/
theorem swaps_gain_nothing_at_demo :
    let loaded := (demoServices.load .new (demoDirectory "\"payroll\"")).2
    let swapped := (demoServices.swap loaded "demo" (demoDirectory "")).2
    ∀ permission, swapped.Holds "demo" permission → loaded.Holds "demo" permission := by
  have keeps : demoServices.Keeps (demoDirectory "\"payroll\"") (demoDirectory "") := by
    refine ⟨List.nil_subset _, List.nil_subset _, List.nil_subset _, ?_⟩
    intro _ _ read
    have same : demoServices.readManifest (demoDirectory "") =
      .ok (demoManifest "", (demoHandle []).manifest) := by rfl
    cases read.symm.trans same
    rfl
  have loads : demoServices.load .new (demoDirectory "\"payroll\"") = (.ok (demoHandle ["payroll"]),
    (demoServices.load .new (demoDirectory "\"payroll\"")).2) := by rfl
  exact (swaps_gain_nothing loads
    (.single ⟨"demo", demoDirectory "", by rfl, fun _ => keeps⟩)).1

set_option maxRecDepth 4096 in
/-- A swap lets a module observe a principal that it could not observe before. -/
theorem swap_gains_observer :
    let loaded := (demoServices.load .new (demoDirectory "")).2
    let swapped := demoServices.swap loaded "demo" (demoDirectory "\"payroll\"")
    swapped.1 = .ok () ∧ swapped.2.Holds "demo" (.observer "payroll") ∧
      ¬ loaded.Holds "demo" (.observer "payroll") := by
  refine ⟨by rfl, .inl ⟨demoHandle ["payroll"], by rfl, List.mem_singleton_self _⟩, ?_⟩
  rintro (⟨handle, found, lists⟩ | ⟨⟨⟩⟩)
  have same : handle = demoHandle [] := (Option.some.inj found).symm
  rw [same] at lists
  cases lists

/-! ## Failed loads and swaps -/

/-- The engine and the name of a module are in force already. -/
def InForce (host : ModuleHost Sidecar) (engine : ManifestAuthEngine) (name : String) : Prop :=
  host.auth.authEngine = some engine.authorize ∧ host.auth.deploymentPrincipal = some name

theorem authorize_eq_self : host.authorize engine name = host ↔ InForce host engine name := by
  obtain ⟨_, ⟨_, _, _⟩, _⟩ := host
  simp only [ModuleHost.authorize, InForce, ModuleHost.mk.injEq, AuthState.mk.injEq, true_and,
    eq_comm]

/-- A load or a swap that fails leaves the host as it was exactly if nothing can fail once
the engine of the new module is in place, or that engine is in force already. -/
theorem failed_keeps_host_iff (services : Services Sidecar) (host : ModuleHost Sidecar)
    (dir : Directory) (moduleName : String) :
    ((∀ error next, services.load host dir = (.error error, next) → next = host) ↔
      ∀ text manifest engine, services.readManifest dir = .ok (text, manifest) →
        services.readEngine text = .ok engine →
        (services.checkArchetype manifest = .ok () ∧ ∃ handle,
          services.start (host.authorize engine manifest.name).auth dir manifest (readCps dir) =
            .ok handle) ∨ InForce host engine manifest.name) ∧
    ((∀ error next, services.swap host moduleName dir = (.error error, next) → next = host) ↔
      ∀ old text new cpsData engine, host.modules.lookup moduleName = some old →
        services.swapCandidate old.manifest dir = .ok (text, new, cpsData) →
        services.readEngine text = .ok engine →
        (∃ handle, services.start (host.authorize engine new.name).auth dir new (.ok cpsData) =
          .ok handle) ∨ InForce host engine new.name) := by
  constructor
  · cases read : services.readManifest dir with
    | error => simp [load, read]
    | ok result =>
      obtain ⟨text, manifest⟩ := result
      cases readEngine : services.readEngine text with
      | error => grind [load]
      | ok engine =>
        -- what the load does once the engine is in place
        have late : (∀ error next, services.load host dir = (.error error, next) → next = host) ↔
            (services.checkArchetype manifest = .ok () ∧ ∃ handle, services.start
              (host.authorize engine manifest.name).auth dir manifest (readCps dir) = .ok handle) ∨
              InForce host engine manifest.name := by
          simp only [load, read, readEngine, ← authorize_eq_self]
          split
          · simp [*]
          · split <;> simp [*]
        grind
  · cases found : host.modules.lookup moduleName with
    | none => simp [swap, found]
    | some old =>
      cases passed : services.swapCandidate old.manifest dir with
      | error => grind [swap]
      | ok result =>
        obtain ⟨text, new, cpsData⟩ := result
        cases readEngine : services.readEngine text with
        | error => grind [swap]
        | ok engine =>
          have late : (∀ error next, services.swap host moduleName dir = (.error error, next) →
              next = host) ↔ (∃ handle, services.start (host.authorize engine new.name).auth dir
                new (.ok cpsData) = .ok handle) ∨ InForce host engine new.name := by
            simp only [swap, found, passed, readEngine, ← authorize_eq_self]
            split <;> simp [*]
          grind

set_option maxRecDepth 4096 in
/-- A host without sidecars refuses a module and keeps its engine and its name. -/
theorem failed_load_changes_principal :
    ∃ error, ∃ next : ModuleHost Unit,
      load { demoServices with ecmascript := none } .new (demoDirectory "") =
          (.error error, next) ∧
        next.auth.deploymentPrincipal = some "demo" ∧ next ≠ .new := by
  refine ⟨_, _, rfl, rfl, fun same => ?_⟩
  cases congrArg (fun host => host.auth.deploymentPrincipal) same

end Services

end AustralVM.Host
