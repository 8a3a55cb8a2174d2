import AustralVM.ModuleManifest
import AustralVM.RustText
import Mathlib.Data.List.Sort

/-!
# The attestation of a module directory

The compiler writes what the prover said about a module into `liquid.ok`, beside
the sources; the host reads it before it runs the module.  Both sides compute the
digest of the sources on their own, in two languages, and the number goes from
one to the other as decimal text.
-/

namespace AustralVM.Host

open Auth RustText String

/-! ## The reader -/

def fnv1a (bytes : List UInt8) : UInt64 :=
  bytes.foldl (fun hash byte => (hash ^^^ byte.toUInt64) * 0x100000001b3) 0xcbf29ce484222325

structure Attestation where
  sourcesHash : UInt64
  mlwHash : UInt64
  prover : String
  proverVersion : String
  verdict : String
  trustedContracts : UInt32
  deriving DecidableEq, Repr

structure AttestationFields where
  sourcesHash : Option UInt64
  mlwHash : Option UInt64
  prover : Option String
  proverVersion : Option String
  verdict : Option String
  trustedContracts : Option UInt32
  deriving DecidableEq, Repr

def readField (fields : AttestationFields) (key value : List Char) :
    Except String AttestationFields :=
  if key = "sources_hash".toList then
    match parseUnsigned 64 value with
    | some number => .ok { fields with sourcesHash := some (UInt64.ofNat number) }
    | none => .error ("liquid.ok: sources_hash " ++ LiquidMode.debugString (ofList value) ++
        " is not a u64")
  else if key = "mlw_hash".toList then
    match parseUnsigned 64 value with
    | some number => .ok { fields with mlwHash := some (UInt64.ofNat number) }
    | none => .error ("liquid.ok: mlw_hash " ++ LiquidMode.debugString (ofList value) ++
        " is not a u64")
  else if key = "prover".toList then .ok { fields with prover := some (ofList value) }
  else if key = "prover_version".toList then
    .ok { fields with proverVersion := some (ofList value) }
  else if key = "verdict".toList then .ok { fields with verdict := some (ofList value) }
  else if key = "trusted_contracts".toList then
    match parseUnsigned 32 value with
    | some number => .ok { fields with trustedContracts := some (UInt32.ofNat number) }
    | none => .error ("liquid.ok: trusted_contracts " ++
        LiquidMode.debugString (ofList value) ++ " is not a u32")
  else .error ("liquid.ok: unknown key " ++ LiquidMode.debugString (ofList key))

def readLine (fields : AttestationFields) (numbered : List Char × Nat) :
    Except String AttestationFields :=
  let line := trim numbered.1
  if line = [] ∨ line.head? = some '#' then .ok fields
  else
    match splitOnce ['='] line with
    | none => .error ("liquid.ok line " ++ toString (numbered.2 + 1) ++
        ": expected `key = value`")
    | some (key, value) => readField fields (trim key) (trim value)

def requireField {α : Type} (name : String) : Option α → Except String α
  | some value => .ok value
  | none => .error ("liquid.ok: missing " ++ name)

def parseAttestation (text : String) : Except String Attestation := do
  let fields ← (lines text.toList).zipIdx.foldlM readLine ⟨none, none, none, none, none, none⟩
  let sourcesHash ← requireField "sources_hash" fields.sourcesHash
  let mlwHash ← requireField "mlw_hash" fields.mlwHash
  let prover ← requireField "prover" fields.prover
  let proverVersion ← requireField "prover_version" fields.proverVersion
  let verdict ← requireField "verdict" fields.verdict
  let trustedContracts ← requireField "trusted_contracts" fields.trustedContracts
  return { sourcesHash, mlwHash, prover, proverVersion, verdict, trustedContracts }

/-- The extension of a file name; a name that only starts with a dot has none. -/
def extension (name : String) : Option String :=
  match rsplitOnce '.' name.toList with
  | some (stem, extension) => if stem = [] then none else some (ofList extension)
  | none => none

namespace Directory

/-- The files whose names pass a test, in the order of their names. -/
def select (dir : Directory) (test : String → Bool) : List (String × Except String ByteArray) :=
  (dir.files.filter fun file => test file.1).insertionSort fun first second => first.1 ≤ second.1

def sourceFiles (dir : Directory) : List (String × Except String ByteArray) :=
  dir.select fun name => extension name = some "aui" || extension name = some "aum"

end Directory

/-- What is hashed: the name and the bytes of each file, each followed by a zero. -/
def digestInput (files : List (String × ByteArray)) : List UInt8 :=
  files.flatMap fun (name, content) =>
    name.toUTF8.data.toList ++ 0 :: (content.data.toList ++ [0])

def readSource (dir : Directory) (file : String × Except String ByteArray) :
    Except String (String × ByteArray) :=
  match file.2 with
  | .error error => .error ("cannot read " ++ dir.join file.1 ++ ": " ++ error)
  | .ok content => .ok (file.1, content)

def sourcesDigest (dir : Directory) : Except String UInt64 :=
  (fun files => fnv1a (digestInput files)) <$> dir.sourceFiles.mapM (readSource dir)

def hex (number : UInt64) : String := "0x" ++ ofList (Nat.toDigits 16 number.toNat)

/-- A verification file in the directory must be the one that was attested; one that
cannot be read is skipped. -/
def checkMlw (dir : Directory) (mlwHash : UInt64) (file : String × Except String ByteArray) :
    Except String Unit :=
  match file.2 with
  | .error _ => .ok ()
  | .ok content =>
    if fnv1a content.data.toList = mlwHash then .ok ()
    else .error ("LiquidAttestationStale: liquid.ok records mlw_hash " ++ hex mlwHash ++ " but " ++
      dir.join file.1 ++ " hashes to " ++ hex (fnv1a content.data.toList))

def acceptVerdict (attestation : Attestation) : Except String String :=
  if attestation.verdict = "proved" then
    .ok ("liquid.ok accepted: " ++ attestation.prover ++ " " ++ attestation.proverVersion ++
      " proved 0 contract(s), " ++ toString attestation.trustedContracts.toNat ++ " trusted")
  else if attestation.verdict = "refused" then
    .error "LiquidAttestationRefused: the prover refused this module's contracts"
  else if attestation.verdict = "unknown" then
    .error ("LiquidAttestationUnknown: the prover was inconclusive; an unknown verdict " ++
      "never satisfies a required module")
  else
    .error ("LiquidAttestationInvalid: verdict " ++ LiquidMode.debugString attestation.verdict ++
      " is not proved/refused/unknown")

/-- The attestation against the bytes in the directory. -/
def checkAttestation (dir : Directory) (attestation : Attestation) : Except String String :=
  match sourcesDigest dir with
  | .error error => .error ("LiquidAttestationUndecidable: " ++ error)
  | .ok digest => do
    if attestation.sourcesHash ≠ digest then
      .error ("LiquidAttestationStale: liquid.ok records sources_hash " ++
        hex attestation.sourcesHash ++ " but the sources on disk hash to " ++ hex digest ++
        "; the attestation predates an edit")
    (dir.select fun name => extension name = some "mlw").forM
      (checkMlw dir attestation.mlwHash)
    acceptVerdict attestation

def verifyModule (dir : Directory) (mode : LiquidMode) : Except String String :=
  if mode = .off then .ok "liquid checking off for this module"
  else
    match dir.readToString "liquid.ok" with
    | .error error =>
      if mode = .optional then .ok ("no liquid.ok (" ++ error ++ "); optional, continuing")
      else .error ("LiquidAttestationMissing: " ++ dir.path ++
        " declares liquid = \"required\" but has no liquid.ok (" ++ error ++ ")")
    | .ok text =>
      match parseAttestation text with
      | .error error =>
        if mode = .optional then
          .ok ("unreadable liquid.ok (" ++ error ++ "); optional, continuing")
        else .error ("LiquidAttestationInvalid: " ++ error)
      | .ok attestation => checkAttestation dir attestation

/-! ## The writer -/

inductive Outcome
  | proved (goals : Nat)
  | refused (goals : List String)
  | unknown (message : String)
  | noEngine (message : String)
  deriving DecidableEq, Repr

def Outcome.isProved : Outcome → Bool
  | .proved _ => true
  | _ => false

/-- The digest as the compiler computes it, in signed numbers. -/
def fnv1aString (bytes : List UInt8) : Int64 :=
  bytes.foldl (fun hash byte => (hash ^^^ Int64.ofNat byte.toNat) * 1099511628211)
    (-3750763034362895579)

def u64Decimal (number : Int64) : List Char :=
  let value := if number.toInt < 0 then number.toInt + 2 ^ 64 else number.toInt
  Nat.toDigits 10 value.toNat

def Directory.sourcesBySuffix (dir : Directory) : List (String × Except String ByteArray) :=
  dir.select fun name =>
    ".aui".toList.isSuffixOf name.toList || ".aum".toList.isSuffixOf name.toList

/-- The sources that the digest of the compiler is over, if there are some and all of
them can be opened. -/
def attestedSources (dir : Directory) : Option (List (String × ByteArray)) :=
  match dir.sourcesBySuffix.mapM (readSource dir) with
  | .ok [] => none
  | .ok files => some files
  | .error _ => none

def sourcesDigestText (dir : Directory) : Option (List Char) :=
  (attestedSources dir).map fun files => u64Decimal (fnv1aString (digestInput files))

def verdictText : Outcome → String
  | .proved _ => "proved"
  | .refused _ => "refused"
  | .unknown _ => "unknown"
  | .noEngine _ => "unknown"

def sidecarField (key : String) (value : List Char) : List Char :=
  key.toList ++ " = ".toList ++ value

def sidecarLines (sources mlwHash : List Char) (why3Cli verdict : String) : List (List Char) :=
  [sidecarField "sources_hash" sources, sidecarField "mlw_hash" mlwHash,
    sidecarField "prover" why3Cli.toList, sidecarField "prover_version" ['0'],
    sidecarField "verdict" verdict.toList, sidecarField "trusted_contracts" ['0']]

def sidecarText (sources mlwHash : List Char) (why3Cli verdict : String) : List Char :=
  (sidecarLines sources mlwHash why3Cli verdict).flatMap (· ++ ['\n'])

namespace Directory

/-- A directory in which a file has been written. -/
def write (dir : Directory) (name : String) (bytes : ByteArray) : Directory where
  path := dir.path
  files := (name, .ok bytes) :: dir.files.filter fun file => file.1 ≠ name
  named := by
    rw [List.map_cons, List.nodup_cons]
    refine ⟨by simp, ?_⟩
    exact dir.named.sublist (List.filter_sublist.map Prod.fst)

end Directory

/-- A run of the verifier on one module: what it emits, if the module has contracts,
where the environment tells it to write, and what the prover says. -/
structure VerifierRun where
  moduleName : String
  constraints : Option String
  dumpsHere : Bool
  sidecarHere : Bool
  why3Cli : String
  outcome : Outcome

/-- The sidecar is written only if a prover ran and the sources can be hashed. -/
def writeSidecar (run : VerifierRun) (mlw : String) (dir : Directory) : Directory :=
  match run.sidecarHere, run.outcome with
  | false, _ | true, .noEngine _ => dir
  | true, outcome =>
    match sourcesDigestText dir with
    | none => dir
    | some sources =>
      dir.write "liquid.ok" (ofList (sidecarText sources
        (u64Decimal (fnv1aString mlw.toUTF8.data.toList)) run.why3Cli
        (verdictText outcome))).toUTF8

def VerifierRun.verify (run : VerifierRun) (dir : Directory) : Directory :=
  match run.constraints with
  | none => dir
  | some mlw =>
    writeSidecar run mlw
      (if run.dumpsHere then dir.write (run.moduleName ++ ".mlw") mlw.toUTF8 else dir)

end AustralVM.Host
