import AustralVM.KeyedSets
import Mathlib.Order.Bounds.Basic

/-!
# Authorization manifests

The authorization engine of `auth.rs`: the manifests that a host loads one
after another, the engine they are merged into, and the decisions it makes.
The TOML reader is a parameter.
-/

namespace AustralVM.Auth

open KeyedSets String

inductive Decision
  | allow
  | deny
  deriving DecidableEq, Repr

/-- An engine answers whether a principal may do an action on a resource. -/
abbrev AuthorizationEngine := String → String → String → Except String Decision

def allowAll : AuthorizationEngine := fun _ _ _ => .ok .allow

/-- The engine of a host that has loaded no manifest. -/
def denyAll : AuthorizationEngine := fun _ _ _ => .ok .deny

/-! ## Manifests -/

inductive LiquidMode
  | off
  | optional
  | required
  deriving DecidableEq, Repr

namespace LiquidMode

def strictness : LiquidMode → Nat
  | .off => 0
  | .optional => 1
  | .required => 2

theorem strictness_injective : Function.Injective strictness := by
  intro first second same
  cases first <;> cases second <;> first | rfl | cases same

/-- Modes are ordered by what they demand. -/
instance : LinearOrder LiquidMode := .lift' strictness strictness_injective

/-- A string as Rust prints it for debugging, with the escapes of the
characters that a manifest can hold. -/
def debugString (text : String) : String :=
  "\"" ++ join (text.toList.map fun char =>
    if char = '"' then "\\\""
    else if char = '\\' then "\\\\"
    else if char = '\n' then "\\n"
    else if char = '\r' then "\\r"
    else if char = '\t' then "\\t"
    else singleton char) ++ "\""

def parse (text : String) : Except String LiquidMode :=
  if text = "off" then .ok .off
  else if text = "optional" then .ok .optional
  else if text = "required" then .ok .required
  else
    .error ("[verify] liquid must be \"off\", \"optional\" or \"required\", got " ++
      debugString text)

def merge : LiquidMode → LiquidMode → LiquidMode
  | .required, _ | _, .required => .required
  | .optional, _ | _, .optional => .optional
  | _, _ => .off

theorem merge_eq_max (first second : LiquidMode) : first.merge second = max first second := by
  cases first <;> cases second <;> rfl

end LiquidMode

structure ManifestToml where
  moduleName : String
  kernel : List String
  effects : List String
  zenodo : List String
  liquid : Option String
  qualifiers : List String
  deriving DecidableEq, Repr

namespace ManifestToml

def liquidMode (manifest : ManifestToml) : Except String LiquidMode :=
  match manifest.liquid with
  | none => .ok .off
  | some text => LiquidMode.parse text

/-- What a manifest lists in the namespace of an action. -/
def listed (manifest : ManifestToml) (action : String) : List String :=
  if action = "Call" then manifest.kernel ++ manifest.zenodo
  else if action = "Effect" then manifest.effects
  else []

end ManifestToml

/-- The TOML reader, at the two types it is used at. -/
structure TomlReader where
  manifest : String → Except String ManifestToml
  nameOnly : String → Except String String

structure ManifestAuthEngine where
  grants : KeyedSets String String
  effects : KeyedSets String String
  liquid : LiquidMode
  qualifiers : List String

open ManifestAuthEngine

namespace ManifestAuthEngine

def new : ManifestAuthEngine := ⟨∅, ∅, .off, []⟩

/-- The engine of one manifest.  The Zenodo calls are calls like those of the
kernel. -/
def ofManifest (manifest : ManifestToml) : Except String ManifestAuthEngine := do
  let liquid ← manifest.liquidMode
  return {
    grants := extend ∅ manifest.moduleName
      (manifest.kernel.toFinset ∪ manifest.zenodo.toFinset)
    effects := extend ∅ manifest.moduleName manifest.effects.toFinset
    liquid := liquid
    qualifiers := manifest.qualifiers }

def fromTomlStr (toml : TomlReader) (text : String) : Except String ManifestAuthEngine :=
  match toml.manifest text with
  | .error error => .error ("TOML parse error: " ++ error)
  | .ok manifest => ofManifest manifest

/-- A module of the other engine that has grants has effects too, if only an
empty set. -/
def merge (engine other : ManifestAuthEngine) : ManifestAuthEngine where
  grants := engine.grants.extendAll other.grants.entries
  effects := (engine.effects.extendAll (other.grants.entries.map fun entry => ⟨entry.1, ∅⟩)).extendAll
    other.effects.entries
  liquid := engine.liquid.merge other.liquid
  qualifiers := other.qualifiers.foldl
    (fun known qualifier => if qualifier ∈ known then known else known ++ [qualifier])
    engine.qualifiers

def isGranted (engine : ManifestAuthEngine) (module callable : String) : Bool :=
  (engine.grants.lookup module).any fun callables => callable ∈ callables

def isEffectGranted (engine : ManifestAuthEngine) (module effect : String) : Bool :=
  (engine.effects.lookup module).any fun effects => effect ∈ effects

def authorize (engine : ManifestAuthEngine) : AuthorizationEngine := fun principal action resource =>
  if action = "Call" then
    .ok (if engine.isGranted principal resource then .allow else .deny)
  else if action = "Effect" then
    .ok (if engine.isEffectGranted principal resource then .allow else .deny)
  else
    .ok .deny

end ManifestAuthEngine

/-! ## The state of a host -/

structure AuthState where
  authEngine : Option AuthorizationEngine
  manifestEngine : ManifestAuthEngine
  deploymentPrincipal : Option String

open AuthState

namespace AuthState

def initial : AuthState := ⟨none, .new, none⟩

/-- The engine that decides; without one everything is denied. -/
def engine (state : AuthState) : AuthorizationEngine := state.authEngine.getD denyAll

/-- Ask for a permission.  The first question to a host without an engine
installs the one that denies everything. -/
def check (state : AuthState) (principal action resource : String) :
    Except String Unit × AuthState :=
  let answer := match state.engine principal action resource with
    | .ok .allow => .ok ()
    | .ok .deny =>
      .error ("UK-4001: Authorization denied — '" ++ principal ++ "' is not granted '" ++
        resource ++ "'")
    | .error error => .error error
  (answer, { state with authEngine := some state.engine })

def newEnginePrincipal (toml : TomlReader) (text : String) : String :=
  match toml.nameOnly text with
  | .ok name => name
  | .error _ => ""

/-- Load a manifest from memory; `none` is the null pointer.  The answer is 1 if
it was loaded and 0 if not. -/
def loadAuthManifest (toml : TomlReader) (state : AuthState) (bytes? : Option ByteArray) :
    Nat × AuthState :=
  match bytes? with
  | none => (0, state)
  | some content =>
    if content.size = 0 then (0, state)
    else
      match fromUTF8? content with
      | none => (0, state)
      | some text =>
        match fromTomlStr toml text with
        | .error _ => (0, state)
        | .ok newEngine =>
          let merged := state.manifestEngine.merge newEngine
          (1, ⟨some merged.authorize, merged, some (newEnginePrincipal toml text)⟩)

def loadAll (toml : TomlReader) (manifests : List (Option ByteArray)) (state : AuthState) :
    AuthState :=
  manifests.foldl (fun state bytes? => (loadAuthManifest toml state bytes?).2) state

end AuthState

/-! ## Decisions of a merged engine -/

namespace ManifestAuthEngine

variable {engine other : ManifestAuthEngine} {manifest : ManifestToml}
  {principal action resource : String}

theorem authorize_cases (engine : ManifestAuthEngine) (principal action resource : String) :
    engine.authorize principal action resource = .ok .allow ∨
      engine.authorize principal action resource = .ok .deny := by
  rw [authorize]
  split
  · cases engine.isGranted principal resource with
    | true => exact .inl rfl
    | false => exact .inr rfl
  · split
    · cases engine.isEffectGranted principal resource with
      | true => exact .inl rfl
      | false => exact .inr rfl
    · exact .inr rfl

/-- The resources of a principal in the namespace of an action. -/
def namespaceOf (engine : ManifestAuthEngine) (principal action : String) : Finset String :=
  if action = "Call" then engine.grants.setAt principal
  else if action = "Effect" then engine.effects.setAt principal
  else ∅

theorem any_lookup_iff {sets : KeyedSets String String} :
    ((sets.lookup principal).any fun names => decide (resource ∈ names)) = true ↔
      resource ∈ sets.setAt principal := by
  rw [setAt]
  cases sets.lookup principal with
  | none => simp
  | some => simp

theorem authorize_eq_allow_iff : engine.authorize principal action resource = .ok .allow ↔
      resource ∈ engine.namespaceOf principal action := by
  rw [authorize, namespaceOf]
  split
  · rw [isGranted, ← any_lookup_iff]
    split
    · simp_all
    · simp_all
  · split
    · rw [isEffectGranted, ← any_lookup_iff]
      split
      · simp_all
      · simp_all
    · simp

theorem namespaceOf_new : new.namespaceOf principal action = ∅ := by
  simp [namespaceOf, new]

theorem namespaceOf_merge : (engine.merge other).namespaceOf principal action =
    engine.namespaceOf principal action ∪ other.namespaceOf principal action := by
  rw [namespaceOf, namespaceOf, namespaceOf]
  split
  · exact setAt_extendAll_entries _ _ _
  · split
    · rw [merge, setAt_extendAll_entries]
      congr 1
      ext resource
      rw [mem_setAt_extendAll]
      simp
    · simp

theorem ofManifest_eq_ok : ofManifest manifest = .ok engine ↔
    ∃ mode, manifest.liquidMode = .ok mode ∧ engine = {
      grants := extend ∅ manifest.moduleName
        (manifest.kernel.toFinset ∪ manifest.zenodo.toFinset)
      effects := extend ∅ manifest.moduleName manifest.effects.toFinset
      liquid := mode
      qualifiers := manifest.qualifiers } := by
  rw [ofManifest]
  cases manifest.liquidMode with
  | error => simp [bind, Except.bind]
  | ok => simp [bind, Except.bind, pure, Except.pure, eq_comm]

theorem mem_namespaceOf_ofManifest (made : ofManifest manifest = .ok engine) :
    resource ∈ engine.namespaceOf principal action ↔
      manifest.moduleName = principal ∧ resource ∈ manifest.listed action := by
  obtain ⟨_, _, rfl⟩ := ofManifest_eq_ok.mp made
  rw [namespaceOf, ManifestToml.listed]
  split
  · rw [mem_setAt_extend]
    simp [eq_comm]
  · split
    · rw [mem_setAt_extend]
      simp [eq_comm]
    · simp

end ManifestAuthEngine

/-! ## Loading manifests -/

/-- The manifest that some bytes hold, if it is read without an error. -/
def parsedManifest (toml : TomlReader) (bytes? : Option ByteArray) : Option ManifestToml := do
  let bytes ← bytes?
  let text ← if bytes.size = 0 then none else fromUTF8? bytes
  let manifest ← (toml.manifest text).toOption
  if manifest.liquidMode.isOk then some manifest else none

/-- The host decides by the manifests it has seen. -/
structure Reflects (state : AuthState) (seen : List ManifestToml) : Prop where
  decides : ∀ principal action resource,
    state.engine principal action resource = .ok .allow ∨
      state.engine principal action resource = .ok .deny
  allows : ∀ principal action resource, state.engine principal action resource = .ok .allow ↔
    ∃ manifest ∈ seen, manifest.moduleName = principal ∧ resource ∈ manifest.listed action
  merged : ∀ principal action resource,
    resource ∈ state.manifestEngine.namespaceOf principal action ↔
      ∃ manifest ∈ seen, manifest.moduleName = principal ∧ resource ∈ manifest.listed action
  strictest : IsGreatest (insert .off {mode | ∃ manifest ∈ seen, manifest.liquidMode = .ok mode})
    state.manifestEngine.liquid

theorem reflects_initial : Reflects .initial [] where
  decides _ _ _ := .inr rfl
  allows principal action resource := by simp [engine, initial, denyAll]
  merged principal action resource := by
    simp [initial, namespaceOf_new]
  strictest := by simp [initial, new]

section Load

variable {toml : TomlReader} {state : AuthState} {bytes? : Option ByteArray}

/-- A manifest that cannot be read changes nothing; one that can be read is
merged into the engine, which then decides. -/
theorem loadAuthManifest_cases (toml : TomlReader) (state : AuthState) (bytes? : Option ByteArray) :
    (parsedManifest toml bytes? = none ∧ loadAuthManifest toml state bytes? = (0, state)) ∨
    ∃ manifest engine principal, parsedManifest toml bytes? = some manifest ∧
      ofManifest manifest = .ok engine ∧ loadAuthManifest toml state bytes? =
        (1, ⟨some (state.manifestEngine.merge engine).authorize, state.manifestEngine.merge engine,
          some principal⟩) := by
  cases bytes? with
  | none => exact .inl ⟨rfl, rfl⟩
  | some bytes =>
    rw [loadAuthManifest, parsedManifest, Option.bind_eq_bind, Option.bind_some]
    by_cases isEmpty : bytes.size = 0
    · rw [if_pos isEmpty, if_pos isEmpty]
      exact .inl ⟨rfl, rfl⟩
    rw [if_neg isEmpty, if_neg isEmpty]
    cases fromUTF8? bytes with
    | none => exact .inl ⟨rfl, rfl⟩
    | some text =>
      simp only [fromTomlStr, Option.bind_eq_bind, Option.bind_some]
      cases toml.manifest text with
      | error => exact .inl ⟨rfl, rfl⟩
      | ok manifest =>
        cases isMode : manifest.liquidMode with
        | error =>
          left
          simp [Except.toOption, ofManifest, isMode, Except.isOk, Except.toBool, bind, Except.bind]
        | ok mode =>
          right
          refine ⟨manifest, _, newEnginePrincipal toml text, ?_,
            ofManifest_eq_ok.mpr ⟨mode, isMode, rfl⟩, ?_⟩
          · simp [Except.toOption, isMode, Except.isOk, Except.toBool]
          · simp [ofManifest, isMode, bind, Except.bind, pure, Except.pure]

theorem Reflects.load (reflects : Reflects state seen) :
    Reflects (loadAuthManifest toml state bytes?).2
      (seen ++ (parsedManifest toml bytes?).toList) := by
  rcases loadAuthManifest_cases toml state bytes? with
    ⟨unread, loaded⟩ | ⟨manifest, engine, principal, parses, made, loaded⟩
  · rw [loaded, unread]
    simpa using reflects
  rw [loaded, parses, Option.toList_some]
  have merged : ∀ principal action resource,
      resource ∈ (state.manifestEngine.merge engine).namespaceOf principal action ↔
        ∃ known ∈ seen ++ [manifest],
          known.moduleName = principal ∧ resource ∈ known.listed action := by
    intro _ _ _
    rw [namespaceOf_merge, Finset.mem_union, reflects.merged, mem_namespaceOf_ofManifest made]
    simp [or_and_right, exists_or]
  refine ⟨fun _ _ _ => authorize_cases _ _ _ _,
    fun principal action resource => ?_, merged, ?_⟩
  · exact authorize_eq_allow_iff.trans (merged principal action resource)
  · obtain ⟨mode, isMode, rfl⟩ := ofManifest_eq_ok.mp made
    have sameModes : insert LiquidMode.off
        {mode | ∃ other ∈ seen ++ [manifest], other.liquidMode = .ok mode} =
        insert .off {mode | ∃ other ∈ seen, other.liquidMode = .ok mode} ∪ {mode} := by
      ext other
      simp only [Set.mem_insert_iff, Set.mem_ofPred_eq, Set.mem_union, Set.mem_singleton_iff,
        List.mem_append, List.mem_singleton, or_and_right, exists_or, exists_eq_left, isMode,
        Except.ok.injEq, or_assoc, @eq_comm _ mode other]
    have greatest := reflects.strictest.union (isGreatest_singleton : IsGreatest {mode} mode)
    rw [← sameModes, ← LiquidMode.merge_eq_max] at greatest
    exact greatest

theorem reflects_loadAll (manifests : List (Option ByteArray)) (reflects : Reflects state seen) :
    Reflects (state.loadAll toml manifests) (seen ++ manifests.filterMap (parsedManifest toml)) := by
  induction manifests generalizing state seen with
  | nil => simpa [loadAll] using reflects
  | cons bytes? manifests ih =>
    have first : Reflects (loadAuthManifest toml state bytes?).2
        (seen ++ (parsedManifest toml bytes?).toList) := reflects.load
    have rest := ih first
    rw [List.append_assoc] at rest
    have sameSeen : (parsedManifest toml bytes?).toList ++ manifests.filterMap (parsedManifest toml) =
        (bytes? :: manifests).filterMap (parsedManifest toml) := by
      cases read : parsedManifest toml bytes? with
      | none => simp [read]
      | some => simp [read]
    rw [sameSeen] at rest
    exact rest

end Load

/-- Whatever manifests a host loads, in whatever order: it allows an action on a
resource exactly if a manifest it could read has the name of the principal and
lists the resource for the action, its liquid mode is the strictest one it has
read, and another order of loading gives the same decisions. -/
theorem authorize_loadAll_iff_listed (toml : TomlReader) (manifests : List (Option ByteArray)) :
    (∀ principal action resource,
      (initial.loadAll toml manifests).engine principal action resource = .ok .allow ↔
        ∃ bytes? ∈ manifests, ∃ manifest, parsedManifest toml bytes? = some manifest ∧
          manifest.moduleName = principal ∧ resource ∈ manifest.listed action) ∧
    IsGreatest (insert .off {mode | ∃ bytes? ∈ manifests, ∃ manifest,
        parsedManifest toml bytes? = some manifest ∧ manifest.liquidMode = .ok mode})
      (initial.loadAll toml manifests).manifestEngine.liquid ∧
    ∀ reordered : List (Option ByteArray), reordered.Perm manifests → ∀ principal action resource,
        (initial.loadAll toml reordered).engine principal action resource =
          (initial.loadAll toml manifests).engine principal action resource := by
  have reflects : ∀ loaded : List (Option ByteArray),
      Reflects (initial.loadAll toml loaded) (loaded.filterMap (parsedManifest toml)) :=
    fun loaded => by simpa using reflects_loadAll loaded reflects_initial
  refine ⟨fun principal action resource => ?_, ?_, fun reordered perm principal action resource => ?_⟩
  · rw [(reflects manifests).allows]
    simp only [List.mem_filterMap]
    constructor
    · rintro ⟨manifest, ⟨bytes?, member, parses⟩, isListed⟩
      exact ⟨bytes?, member, manifest, parses, isListed⟩
    · rintro ⟨bytes?, member, manifest, parses, isListed⟩
      exact ⟨manifest, ⟨bytes?, member, parses⟩, isListed⟩
  · have greatest := (reflects manifests).strictest
    simp only [List.mem_filterMap] at greatest
    convert greatest using 4
    constructor
    · rintro ⟨bytes?, member, manifest, parses, isMode⟩
      exact ⟨manifest, ⟨bytes?, member, parses⟩, isMode⟩
    · rintro ⟨manifest, ⟨bytes?, member, parses⟩, isMode⟩
      exact ⟨bytes?, member, manifest, parses, isMode⟩
  · have sameAllowed :
        (initial.loadAll toml reordered).engine principal action resource = .ok .allow ↔
          (initial.loadAll toml manifests).engine principal action resource = .ok .allow := by
      rw [(reflects reordered).allows, (reflects manifests).allows]
      simp only [(perm.filterMap _).mem_iff]
    rcases (reflects manifests).decides principal action resource with allowed | denied
    · rw [allowed, sameAllowed.mpr allowed]
    · rcases (reflects reordered).decides principal action resource with allowed | denied'
      · rw [sameAllowed.mp allowed] at denied
        cases denied
      · rw [denied, denied']

/-- A reader that finds the same manifest in every text. -/
def demoReader : TomlReader :=
  ⟨fun _ => .ok ⟨"demo_module", ["uk_version"], [], ["uz_init"], some "required", []⟩,
    fun _ => .ok "demo_module"⟩

theorem authorize_loadAll_iff_listed_at_demo :
    (initial.loadAll demoReader [none, some "name".toUTF8]).engine
        "demo_module" "Call" "uz_init" = .ok .allow ∧
      (initial.loadAll demoReader [some "name".toUTF8, none]).engine
        "demo_module" "Call" "uz_init" = .ok .allow := by
  obtain ⟨allows, _, anyOrder⟩ := authorize_loadAll_iff_listed demoReader [none, some "name".toUTF8]
  have allowed := (allows "demo_module" "Call" "uz_init").mpr
    ⟨some "name".toUTF8, by simp, _, rfl, rfl, by decide⟩
  exact ⟨allowed, (anyOrder _ (.swap _ _ _) _ _ _).trans allowed⟩

end AustralVM.Auth
