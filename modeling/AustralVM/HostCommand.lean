import AustralVM.AttestationRuns
import AustralVM.SwapPermissions

/-!
# The host command

`modhost host`: load a module, check its attestation, offer it a hot swap and call
it.  The check before a swap takes the posture from the manifest of the incoming
directory, so the incoming module decides how it is checked.  The check is over
the sources and never looks at the code.
-/

namespace AustralVM.Host

open Auth

variable {Sidecar : Type} {services : Services Sidecar}
  {invoke : ModuleHost Sidecar → String → Nat → Except String String} {dir incoming : Directory}
  {times : Nat} {note : String}

namespace Services

/-- The `[verify]` posture that the manifest of a directory declares; a directory
without a manifest declares nothing. -/
def declaredMode (services : Services Sidecar) (dir : Directory) :
    Except String (LiquidMode × List String) :=
  match dir.readToString "module.toml" with
  | .error _ => .ok (.off, [])
  | .ok text =>
    match ManifestAuthEngine.fromTomlStr (tomlReader services.toml) text with
    | .error error => .error ("LiquidManifestInvalid: " ++ dir.join "module.toml" ++ ": " ++ error)
    | .ok engine => .ok (engine.liquid, engine.qualifiers)

def liquidPosture (services : Services Sidecar) (dir : Directory) : Except String String := do
  let (mode, qualifiers) ← services.declaredMode dir
  let note ← verifyModule dir mode
  return if qualifiers = [] then note
    else note ++ " (qualifiers: " ++ ", ".intercalate qualifiers ++ ")"

end Services

inductive Phase
  | load
  | swap
  deriving DecidableEq, Repr

/-- What the command does, in order.  From `opens` on the code of the directory may
run. -/
inductive HostEvent
  | opens (phase : Phase) (dir : Directory)
  | attested (phase : Phase) (dir : Directory) (note : String)
  | refused (phase : Phase) (reason : String)
  | loadFailed (reason : String)
  | swapFailed (reason : String)
  | swapped (moduleName : String) (dir : Directory)
  | called (result : String)
  | callFailed (reason : String)

/-- Call the entry point again and again, until a call fails. -/
def callLoop (invoke : Nat → Except String String) : (remaining made : Nat) → List HostEvent
  | 0, _ => []
  | remaining + 1, made =>
    match invoke made with
    | .error error => [.callFailed error]
    | .ok result => .called result :: callLoop invoke remaining (made + 1)

def offerSwap (services : Services Sidecar) (host : ModuleHost Sidecar) (moduleName : String)
    (dir : Directory) : List HostEvent × Option (ModuleHost Sidecar) :=
  match services.liquidPosture dir with
  | .error error => ([.refused .swap error], none)
  | .ok note =>
    match services.swap host moduleName dir with
    | (.error error, _) => ([.attested .swap dir note, .opens .swap dir, .swapFailed error], none)
    | (.ok (), host) =>
      ([.attested .swap dir note, .opens .swap dir, .swapped moduleName dir], some host)

/-- The command after its arguments have been read.  What the code of a module does
when it is called is a parameter. -/
def cmdHost (services : Services Sidecar)
    (invoke : ModuleHost Sidecar → String → Nat → Except String String) (dir : Directory)
    (swapDir : Option Directory) (times : Nat) : List HostEvent :=
  match services.load .new dir with
  | (.error error, _) => [.opens .load dir, .loadFailed error]
  | (.ok handle, host) =>
    let name := handle.manifest.name
    match services.liquidPosture dir with
    | .error error => [.opens .load dir, .refused .load error]
    | .ok note =>
      let loaded := [.opens .load dir, .attested .load dir note]
      match swapDir with
      | none => loaded ++ callLoop (invoke host name) times 0
      | some incoming =>
        match offerSwap services host name incoming with
        | (events, none) => loaded ++ events
        | (events, some host) => loaded ++ events ++ callLoop (invoke host name) times 0

/-! ## What a swap has passed -/

section Attests

-- what compiling source files gives
variable (compile : List (String × ByteArray) → Option ByteArray)

/-- The code in a directory is what the sources there compile to. -/
def BuiltFrom (dir : Directory) : Prop :=
  ∀ files, dir.sourceFiles.mapM (readSource dir) = .ok files →
    ∃ code, compile files = some code ∧ dir.read "module.cps" = .ok code

/-- The directory carries an attestation that matches its own bytes: it speaks of
the sources in the directory, and the code is what these compile to. -/
def Attests (dir : Directory) : Prop :=
  ∃ files attestation, Session.SourcesAttested dir files attestation ∧
    ∃ code, compile files = some code ∧ dir.read "module.cps" = .ok code

end Attests

variable {compile : List (String × ByteArray) → Option ByteArray}

/-- The manifest of a directory asks for its attestation to be checked: it requires
one, or it makes it optional and there is one to read. -/
def AsksForCheck (services : Services Sidecar) (dir : Directory) : Prop :=
  ∃ mode qualifiers, services.declaredMode dir = .ok (mode, qualifiers) ∧
    (mode = .required ∨ mode = .optional ∧
      ∃ text attestation, dir.readToString "liquid.ok" = .ok text ∧
        parseAttestation text = .ok attestation)

theorem verified_of_liquidPosture (asks : AsksForCheck services dir)
    (passed : services.liquidPosture dir = .ok note) :
    ∃ note, verifyModule dir .required = .ok note := by
  obtain ⟨_, _, declared, checks⟩ := asks
  rw [Services.liquidPosture, declared] at passed
  obtain ⟨_, ⟨⟩, rest⟩ := Comp.bind_eq_ok.mp passed
  obtain ⟨note, verified, -⟩ := Comp.bind_eq_ok.mp rest
  rcases checks with rfl | ⟨rfl, text, attestation, read, parsed⟩
  · exact ⟨note, verified⟩
  · -- With an attestation to read, the two modes check the same.
    refine ⟨note, ?_⟩
    rw [verifyModule, if_neg (by decide)] at verified ⊢
    simp only [read, parsed] at verified ⊢
    exact verified

theorem attests_of_liquidPosture (asks : AsksForCheck services dir) (built : BuiltFrom compile dir)
    (passed : services.liquidPosture dir = .ok note) : Attests compile dir := by
  obtain ⟨_, verified⟩ := verified_of_liquidPosture asks passed
  obtain ⟨files, attestation, attested⟩ := Session.sourcesAttested_of_verifyModule verified
  exact ⟨files, attestation, attested, built files attested.sources⟩

/-- An event that hands a directory over in a swap. -/
def HostEvent.isSwap : HostEvent → Bool
  | .opens .swap _ | .swapped _ _ => true
  | _ => false

theorem callLoop_not_swap : ∀ event ∈ callLoop run remaining made, ¬ event.isSwap := by
  induction remaining generalizing made with
  | zero => simp [callLoop]
  | succ _ ih =>
    rw [callLoop]
    cases run made with
    | error => simp [HostEvent.isSwap]
    | ok => simpa [HostEvent.isSwap] using ih

theorem cmdHost_cases :
    (∀ event ∈ cmdHost services invoke dir (some incoming) times, ¬ event.isSwap) ∨
      ∃ note before after, services.liquidPosture incoming = .ok note ∧
        cmdHost services invoke dir (some incoming) times =
          before ++ .attested .swap incoming note :: .opens .swap incoming :: after ∧
        (∀ event ∈ before, ¬ event.isSwap) ∧ ∀ other, .opens .swap other ∉ after := by
  rw [cmdHost]
  rcases services.load .new dir with ⟨_ | handle, host⟩
  · exact .inl (by simp [HostEvent.isSwap])
  dsimp only
  cases loadGate : services.liquidPosture dir with
  | error => exact .inl (by simp [HostEvent.isSwap])
  | ok loadNote =>
    dsimp only
    rw [offerSwap]
    cases swapGate : services.liquidPosture incoming with
    | error => exact .inl (by simp [HostEvent.isSwap])
    | ok note =>
      dsimp only
      have notYet : ∀ event ∈ [HostEvent.opens .load dir, .attested .load dir loadNote],
          ¬ event.isSwap := by simp [HostEvent.isSwap]
      rcases services.swap host handle.manifest.name incoming with ⟨_ | _, swapped⟩
      · exact .inr ⟨note, _, _, rfl, rfl, notYet, by simp⟩
      · refine .inr ⟨note, _, _, rfl, rfl, notYet, fun other opened => ?_⟩
        rcases List.mem_cons.mp opened with impossible | inCalls
        · cases impossible
        · exact callLoop_not_swap _ inCalls rfl

theorem swapped_of_passed (loads : services.load .new dir = (.ok handle, host))
    (loadGate : services.liquidPosture dir = .ok loadNote)
    (swapGate : services.liquidPosture incoming = .ok note)
    (swaps : services.swap host handle.manifest.name incoming = (.ok (), swapped)) :
    .swapped handle.manifest.name incoming ∈ cmdHost services invoke dir (some incoming) times := by
  simp only [cmdHost, loads, loadGate, offerSwap, swapGate, swaps]
  simp

/-- A manifest that declares a posture. -/
def postureManifest (mode : String) : String :=
  "[module]\nname = \"demo\"\narchetype = \"ecmascript\"\narchetypes = [\"ecmascript\"]\n\n" ++
    "[verify]\nliquid = \"" ++ mode ++ "\"\n"

def postureTable (mode : String) : TomlValue := .table [
  ("module", .table [("name", .string "demo"), ("archetype", .string "ecmascript"),
    ("archetypes", .array [.string "ecmascript"])]),
  ("verify", .table [("liquid", .string mode)])]

def postureToml : Toml := fun text =>
  if text = postureManifest "required" then .ok (postureTable "required")
  else if text = postureManifest "off" then .ok (postureTable "off")
  else .error "unknown manifest"

def postureServices : Services Unit := { Services.demoServices with toml := postureToml }

section Posture

variable {mode : String} (isMode : mode = "required" ∨ mode = "off")

include isMode in
theorem postureToml_eq : postureToml (postureManifest mode) = .ok (postureTable mode) := by
  obtain rfl | rfl := isMode
  · exact if_pos rfl
  · rw [postureToml, if_neg (by decide), if_pos rfl]

def postureHandle : ModuleHandle Unit where
  manifest := ⟨"demo", "0.0.0", ["ecmascript"], "ecmascript", "run", [], [], [], [], [], [], [],
    none, none, .enabled⟩
  runtime := .ecma ()
  callCount := 0

variable (readable : dir.readToString "module.toml" = .ok (postureManifest mode))

include isMode readable in
theorem readManifest_posture : postureServices.readManifest dir =
    .ok (postureManifest mode, postureHandle.manifest) := by
  have toml : postureServices.toml (postureManifest mode) = _ := postureToml_eq isMode
  simp only [Services.readManifest, readable, ModuleManifest.fromTomlStr, toml]
  rfl

include isMode in
theorem readEngine_posture :
    ∃ engine, postureServices.readEngine (postureManifest mode) = .ok engine := by
  have toml : postureServices.toml (postureManifest mode) = _ := postureToml_eq isMode
  simp only [Services.readEngine, ManifestAuthEngine.fromTomlStr, tomlReader, toml]
  obtain rfl | rfl := isMode
  · exact ⟨_, rfl⟩
  · exact ⟨_, rfl⟩

include isMode readable in
theorem load_posture : ∃ host, postureServices.load .new dir = (.ok postureHandle, host) ∧
    host.modules.lookup "demo" = some postureHandle := by
  obtain ⟨engine, engineRead⟩ := readEngine_posture isMode
  simp only [Services.load, readManifest_posture isMode readable, engineRead]
  exact ⟨_, rfl, rfl⟩

include isMode readable in
theorem swap_posture {host : ModuleHost Unit}
    (loaded : host.modules.lookup "demo" = some postureHandle)
    (code : dir.read "module.cps" = .ok bytes) :
    ∃ swapped, postureServices.swap host "demo" dir = (.ok (), swapped) := by
  obtain ⟨engine, engineRead⟩ := readEngine_posture isMode
  have candidate : postureServices.swapCandidate postureHandle.manifest dir =
      .ok (postureManifest mode, postureHandle.manifest, bytes) := by
    simp only [Services.swapCandidate, readManifest_posture isMode readable, Services.readCps,
      code]
    rfl
  simp only [Services.swap, loaded, candidate, engineRead]
  exact ⟨_, rfl⟩

end Posture

def postureFiles (version : String) : List (String × ByteArray) := [("Demo.aum", version.toUTF8)]

/-- A compiler for one file, which copies it. -/
def copied : List (String × ByteArray) → Option ByteArray
  | [(_, source)] => some source
  | _ => none

/-- A module directory of some posture, without an attestation. -/
def postureDir (mode version code : String) : Directory where
  path := "demo"
  files := [("module.toml", .ok (postureManifest mode).toUTF8), ("module.cps", .ok code.toUTF8)] ++
    (postureFiles version).map fun (name, bytes) => (name, .ok bytes)
  named := by simp [postureFiles]

abbrev postureRun : VerifierRun := Session.demoRun "Demo" (.proved 1)

/-- The directory of a module that requires an attestation and has one. -/
def attestedDir (version code : String) : Directory :=
  postureRun.verify (postureDir "required" version code)

/-- A first version, a second one, and the second one with other code. -/
def IsVersion (version code : String) : Prop :=
  version = "first" ∧ code = "first" ∨ version = "second" ∧ (code = "second" ∨ code = "other")

section Versions

variable {version code : String} (isVersion : IsVersion version code)

set_option maxRecDepth 4096 in
include isVersion in
theorem verified_attestedDir :
    ∃ note, verifyModule (attestedDir version code) .required = .ok note := by
  have hasSources : attestedSources (postureDir "required" version code) =
      some (postureFiles version) := by
    obtain ⟨rfl, rfl⟩ | ⟨rfl, rfl | rfl⟩ := isVersion <;> rfl
  have records : Session.Records "Demo" ⟨postureDir "required" version code, []⟩ postureRun :=
    ⟨rfl, rfl, nofun, by rw [hasSources]; rfl, by decide⟩
  obtain ⟨rfl, rfl⟩ | ⟨rfl, rfl | rfl⟩ := isVersion <;>
    exact Session.accepts_of_verify rfl records rfl hasSources rfl rfl

include isVersion in
theorem readToString_attestedDir : (attestedDir version code).readToString "module.toml" =
    .ok (postureManifest "required") := by
  obtain ⟨rfl, rfl⟩ | ⟨rfl, rfl | rfl⟩ := isVersion <;>
    exact Session.readToString_of_read rfl

include isVersion in
theorem declaredMode_attestedDir :
    postureServices.declaredMode (attestedDir version code) = .ok (.required, []) := by
  have toml : postureServices.toml (postureManifest "required") = _ := postureToml_eq (.inl rfl)
  simp only [Services.declaredMode, readToString_attestedDir isVersion,
    ManifestAuthEngine.fromTomlStr, tomlReader, toml]
  rfl

include isVersion in
theorem liquidPosture_attestedDir :
    ∃ note, postureServices.liquidPosture (attestedDir version code) = .ok note := by
  obtain ⟨note, verified⟩ := verified_attestedDir isVersion
  refine ⟨note, ?_⟩
  rw [Services.liquidPosture, declaredMode_attestedDir isVersion, Except.ok_bind]
  simp only [verified]
  rfl

end Versions

/-- What happens if a directory is offered to a host of the first version. -/
abbrev offered (incoming : Directory) : List HostEvent :=
  cmdHost postureServices (fun _ _ _ => .ok "0") (attestedDir "first" "first") (some incoming) 1

theorem swapped_of_posture (isMode : mode = "required" ∨ mode = "off")
    (readable : incoming.readToString "module.toml" = .ok (postureManifest mode))
    (code : incoming.read "module.cps" = .ok bytes)
    (gate : postureServices.liquidPosture incoming = .ok note) :
    .swapped "demo" incoming ∈ offered incoming := by
  have isFirst : IsVersion "first" "first" := .inl ⟨rfl, rfl⟩
  obtain ⟨_, loadGate⟩ := liquidPosture_attestedDir isFirst
  obtain ⟨_, loads, loaded⟩ := load_posture (.inl rfl) (readToString_attestedDir isFirst)
  obtain ⟨_, swaps⟩ := swap_posture isMode readable loaded code
  exact swapped_of_passed loads loadGate gate swaps

end AustralVM.Host
