import AustralVM.ExceptRules
import AustralVM.LiquidAttest
import Mathlib.Logic.Relation

/-!
# Attestations over runs of the verifier

One directory, the runs of the verifier in it and the edits between them.  A
directory has one sidecar, whatever the number of its modules, so the sidecar
speaks of the last run that wrote it.
-/

namespace AustralVM.Host

open Auth RustText List Int64
open Except (ok_bind)
open String (ofList)

/-! ## The two digests -/

theorem toUInt64_ofByte (byte : UInt8) : (ofNat byte.toNat).toUInt64 = byte.toUInt64 := by
  rw [← UInt64.toNat_inj, UInt8.toNat_toUInt64]
  simp

theorem toUInt64_fnv1aString (bytes : List UInt8) : (fnv1aString bytes).toUInt64 = fnv1a bytes := by
  have fold : ∀ hash : Int64,
      (bytes.foldl (fun hash byte => (hash ^^^ ofNat byte.toNat) * 1099511628211)
        hash).toUInt64 =
      bytes.foldl (fun hash byte => (hash ^^^ byte.toUInt64) * 0x100000001b3) hash.toUInt64 := by
    induction bytes with
    | nil => exact fun _ => rfl
    | cons byte _ ih =>
      intro hash
      have step : ((hash ^^^ ofNat byte.toNat) * 1099511628211).toUInt64 =
          (hash.toUInt64 ^^^ byte.toUInt64) * 0x100000001b3 := by
        rw [toUInt64_mul, toUInt64_xor, toUInt64_ofByte]
        rfl
      rw [foldl_cons, foldl_cons, ih, step]
  exact fold _

theorem u64Decimal_eq (number : Int64) :
    u64Decimal number = Nat.toDigits 10 number.toUInt64.toNat := by
  have signed : number.toInt =
      if 2 * number.toUInt64.toNat < 2 ^ 64 then (number.toUInt64.toNat : Int)
      else number.toUInt64.toNat - (2 ^ 64 : Nat) :=
    BitVec.toInt_eq_toNat_cond number.toBitVec
  have bound := number.toUInt64.toNat_lt
  rw [u64Decimal]
  congr 1
  split_ifs at signed ⊢ <;> omega

theorem u64Decimal_fnv1aString (bytes : List UInt8) :
    u64Decimal (fnv1aString bytes) = Nat.toDigits 10 (fnv1a bytes).toNat := by
  rw [u64Decimal_eq, toUInt64_fnv1aString]

/-! ## Reading a sidecar back -/

def IsKey (key : List Char) : Prop :=
  (∀ char ∈ key, ¬ isWhitespace char) ∧ '=' ∉ key ∧ '#' ∉ key ∧ key ≠ []

theorem visible_of_all {text : List Char} (all : text.all fun char => !isWhitespace char) :
    ∀ char ∈ text, ¬ isWhitespace char := by
  simpa using all

/-- The characters of the text are looked at, not all characters there are. -/
instance (key : List Char) : Decidable (IsKey key) :=
  decidable_of_iff
    ((key.all fun char => !isWhitespace char) = true ∧ '=' ∉ key ∧ '#' ∉ key ∧ key ≠ [])
    ⟨fun isKey => ⟨visible_of_all isKey.1, isKey.2⟩, fun isKey => ⟨by simpa using isKey.1, isKey.2⟩⟩

theorem readLine_field (isKey : IsKey key.toList) (fields : AttestationFields) (value : List Char)
    (number : Nat) : readLine fields (withoutReturn (sidecarField key value), number) =
      readField fields key.toList (trim (trimEnd (' ' :: value))) := by
  rw [sidecarField]
  generalize key.toList = key at isKey ⊢
  obtain ⟨visible, noEquals, noHash, nonempty⟩ := isKey
  have layout : key ++ " = ".toList ++ value = (key ++ [' ']) ++ '=' :: ' ' :: value := by simp
  obtain ⟨first, rest, rfl⟩ := exists_cons_of_ne_nil nonempty
  have trimmed : trim (first :: rest ++ " = ".toList ++ value) =
      (first :: rest ++ [' ']) ++ '=' :: trimEnd (' ' :: value) := by
    rw [layout, trim]
    rw [show (first :: rest ++ [' ']) ++ '=' :: ' ' :: value =
      first :: (rest ++ [' '] ++ '=' :: ' ' :: value) from rfl,
      trimStart_cons _ (visible first mem_cons_self)]
    exact trimEnd_append (first :: rest ++ [' ']) (' ' :: value) (by decide)
  have keyTrimmed : trim (first :: rest ++ [' ']) = first :: rest := by
    rw [trim_append_blank _ (by decide), trim_of_visible visible]
  have notComment : ¬ ((first :: rest ++ [' ']) ++ '=' :: trimEnd (' ' :: value) = [] ∨
      ((first :: rest ++ [' ']) ++ '=' :: trimEnd (' ' :: value)).head? = some '#') := by
    rintro (empty | hash)
    · cases empty
    · exact noHash (Option.some.inj hash ▸ mem_cons_self)
  have separated : '=' ∉ first :: rest ++ [' '] := by simpa using noEquals
  rw [readLine]
  simp only [trim_withoutReturn, trimmed]
  rw [if_neg notComment, splitOnce_append _ separated]
  simp only [keyTrimmed]

theorem trim_value (visible : ∀ char ∈ value, ¬ isWhitespace char) :
    trim (trimEnd (' ' :: value)) = value := by
  rcases eq_nil_or_concat value with rfl | ⟨start, last, rfl⟩
  · rfl
  · rw [concat_eq_append] at visible ⊢
    have kept : trimEnd (' ' :: (start ++ [last])) = ' ' :: (start ++ [last]) :=
      trimEnd_append (' ' :: start) [] (visible last (by simp))
    rw [kept, trim, trimStart, dropWhile_cons_of_pos (by decide)]
    exact trim_of_visible visible

theorem visible_toDigits (number : Nat) : ∀ char ∈ Nat.toDigits 10 number, ¬ isWhitespace char := by
  intro char inDigits
  have digit := Nat.isDigit_of_mem_toDigits (by decide) (by decide) inDigits
  rw [Char.isDigit, Bool.and_eq_true, decide_eq_true_eq, decide_eq_true_eq] at digit
  have lower : 48 ≤ char.toNat := digit.1
  have upper : char.toNat ≤ 57 := digit.2
  simp only [isWhitespace, Bool.or_eq_true, Bool.and_eq_true, decide_eq_true_eq]
  omega

theorem notMem_of_visible {value : List Char} (visible : ∀ char ∈ value, ¬ isWhitespace char) :
    '\n' ∉ value := fun inValue => visible '\n' inValue (by decide)

theorem readField_sources_hash (fields : AttestationFields) (number : UInt64) :
    readField fields "sources_hash".toList (Nat.toDigits 10 number.toNat) =
      .ok { fields with sourcesHash := some number } := by
  rw [readField, if_pos rfl, parseUnsigned_toDigits number.toNat_lt]
  simp

theorem readField_mlw_hash (fields : AttestationFields) (number : UInt64) :
    readField fields "mlw_hash".toList (Nat.toDigits 10 number.toNat) =
      .ok { fields with mlwHash := some number } := by
  rw [readField, if_neg (by decide), if_pos rfl, parseUnsigned_toDigits number.toNat_lt]
  simp

theorem parseAttestation_sidecarText (sources mlwHash : UInt64) {why3Cli verdict : String}
    (cliLine : '\n' ∉ why3Cli.toList) (visible : ∀ char ∈ verdict.toList, ¬ isWhitespace char) :
    ∃ prover, parseAttestation (ofList (sidecarText (Nat.toDigits 10 sources.toNat)
        (Nat.toDigits 10 mlwHash.toNat) why3Cli verdict)) =
      .ok ⟨sources, mlwHash, prover, "0", verdict, 0⟩ := by
  have whole : ∀ line ∈ sidecarLines (Nat.toDigits 10 sources.toNat)
      (Nat.toDigits 10 mlwHash.toNat) why3Cli verdict, '\n' ∉ line := by
    have sourcesLine := notMem_of_visible (visible_toDigits sources.toNat)
    have mlwLine := notMem_of_visible (visible_toDigits mlwHash.toNat)
    have verdictLine := notMem_of_visible visible
    simp [sidecarLines, sidecarField, sourcesLine, mlwLine, verdictLine, cliLine]
  have proverRead (fields : AttestationFields) (value : List Char) :
      readField fields "prover".toList value =
        .ok { fields with prover := some (ofList value) } := by
    rw [readField, if_neg (by decide), if_neg (by decide), if_pos rfl]
  have versionRead (fields : AttestationFields) (value : List Char) :
      readField fields "prover_version".toList value =
        .ok { fields with proverVersion := some (ofList value) } := by
    rw [readField, if_neg (by decide), if_neg (by decide), if_neg (by decide), if_pos rfl]
  have verdictRead (fields : AttestationFields) :
      readField fields "verdict".toList verdict.toList =
        .ok { fields with verdict := some verdict } := by
    rw [readField, if_neg (by decide), if_neg (by decide), if_neg (by decide), if_neg (by decide),
      if_pos rfl, String.ofList_toList]
  refine ⟨ofList (trim (trimEnd (' ' :: why3Cli.toList))), ?_⟩
  rw [parseAttestation, String.toList_ofList, lines, sidecarText, pieces_flatMap whole]
  simp only [sidecarLines, map_cons, map_nil, zipIdx_cons, zipIdx_nil, foldlM_cons, foldlM_nil]
  rw [readLine_field (by decide), trim_value (visible_toDigits _), readField_sources_hash, ok_bind,
    readLine_field (by decide), trim_value (visible_toDigits _), readField_mlw_hash, ok_bind,
    readLine_field (by decide), proverRead, ok_bind, readLine_field (by decide), versionRead, ok_bind,
    readLine_field (by decide), trim_value visible, verdictRead, ok_bind, readLine_field (by decide)]
  rfl

/-! ## Writing into a directory -/

namespace Directory

theorem read_write_self (dir : Directory) (name : String) (bytes : ByteArray) :
    (dir.write name bytes).read name = .ok bytes := by
  simp [read, write]

theorem select_write (other : test name = false) (dir : Directory) (bytes : ByteArray) :
    (dir.write name bytes).select test = dir.select test := by
  rw [select, select, write]
  dsimp only
  rw [filter_cons_of_neg (by simp [other]), filter_filter]
  congr 1
  refine filter_congr fun file _ => ?_
  cases passes : test file.1 with
  | false => rfl
  | true =>
    have different : file.1 ≠ name := fun same => by simp [same, other] at passes
    simp [different]

end Directory

theorem attestedSources_write
    (other : (".aui".toList.isSuffixOf name.toList || ".aum".toList.isSuffixOf name.toList) = false)
    (dir : Directory) (bytes : ByteArray) :
    attestedSources (dir.write name bytes) = attestedSources dir := by
  rw [attestedSources, attestedSources, Directory.sourcesBySuffix, Directory.select_write other]
  rfl

theorem mlw_not_source (name : String) :
    (".aui".toList.isSuffixOf (name ++ ".mlw").toList ||
      ".aum".toList.isSuffixOf (name ++ ".mlw").toList) = false := by
  have ends (suffix : List Char) (last : suffix.getLast? ≠ some 'w') (nonempty : suffix ≠ []) :
      suffix.isSuffixOf (name ++ ".mlw").toList = false := by
    rw [Bool.eq_false_iff]
    intro isSuffix
    obtain ⟨start, whole⟩ := isSuffixOf_iff_suffix.mp isSuffix
    refine last ?_
    rw [← getLast?_append_of_ne_nil start nonempty, whole, String.toList_append,
      getLast?_append_of_ne_nil _ (by decide)]
    decide
  rw [ends _ (by decide) (by decide), ends _ (by decide) (by decide), Bool.or_false]

/-! ## Sessions -/

/-- A run on a module with contracts, with the sources that it saw. -/
structure Verification where
  moduleName : String
  sources : Option (List (String × ByteArray))
  outcome : Outcome

/-- A directory with the verifications that were made in it, the latest first. -/
structure Session where
  dir : Directory
  history : List Verification

namespace Session

/-- A directory without a sidecar, before any run. -/
structure Fresh (session : Session) : Prop where
  noSidecar : session.dir.files.lookup "liquid.ok" = none
  noHistory : session.history = []

def verify (session : Session) (run : VerifierRun) : Session where
  dir := run.verify session.dir
  history :=
    if run.constraints.isSome then
      ⟨run.moduleName, attestedSources session.dir, run.outcome⟩ :: session.history
    else session.history

/-- A run of the verifier, or an edit of anything but the sidecar. -/
inductive Step (allowed : Session → VerifierRun → Prop) : Session → Session → Prop
  | verify {session : Session} (run : VerifierRun) (isAllowed : allowed session run) :
      Step allowed session (session.verify run)
  | edit {session : Session} (dir : Directory)
      (kept : dir.read "liquid.ok" = session.dir.read "liquid.ok") :
      Step allowed session { session with dir }

def sources (session : Session) : Except String (List (String × ByteArray)) :=
  session.dir.sourceFiles.mapM (readSource session.dir)

/-- The latest verification of every module with contracts was of the sources now on
disk and proved. -/
def Proved (contracted : List (String × ByteArray) → List String) (session : Session) : Prop :=
  ∀ files, session.sources = .ok files → ∀ name ∈ contracted files,
    ∃ verification, session.history.find? (·.moduleName = name) = some verification ∧
      verification.sources = some files ∧ verification.outcome.isProved

/-- A run on the one module with contracts, by a prover that is there, that records
its verdict. -/
structure Records (name : String) (session : Session) (run : VerifierRun) : Prop where
  only : run.moduleName = name
  sidecar : run.sidecarHere
  prover : ∀ message, run.outcome ≠ .noEngine message
  sources : (attestedSources session.dir).isSome
  oneLine : '\n' ∉ run.why3Cli.toList

/-- The sidecar is that of the latest verification. -/
def Described (name : String) (session : Session) : Prop :=
  match session.history with
  | [] => ∀ text, session.dir.readToString "liquid.ok" ≠ .ok text
  | verification :: _ => verification.moduleName = name ∧
      ∃ files mlwHash why3Cli, verification.sources = some files ∧ '\n' ∉ why3Cli.toList ∧
        session.dir.readToString "liquid.ok" = .ok (ofList (sidecarText
          (Nat.toDigits 10 (fnv1a (digestInput files)).toNat) (Nat.toDigits 10 (UInt64.toNat mlwHash))
          why3Cli (verdictText verification.outcome)))

variable {name : String} {session next start : Session}

theorem readToString_of_read {dir : Directory} {file : String} {text : String}
    (read : dir.read file = .ok text.toUTF8) : dir.readToString file = .ok text := by
  have valid : String.fromUTF8? text.toUTF8 = some text := by
    rw [String.fromUTF8?]
    exact dif_pos text.isValidUTF8
  rw [Directory.readToString, read, ok_bind]
  simp only [valid]

theorem readToString_verify {run : VerifierRun} {mlw : String} {files : List (String × ByteArray)}
    (hasContracts : run.constraints = some mlw) (records : Records name session run)
    (hasSources : attestedSources session.dir = some files) :
    (run.verify session.dir).readToString "liquid.ok" = .ok (ofList (sidecarText
      (Nat.toDigits 10 (fnv1a (digestInput files)).toNat)
      (Nat.toDigits 10 (fnv1a mlw.toUTF8.data.toList).toNat) run.why3Cli
      (verdictText run.outcome))) := by
  have kept : attestedSources (if run.dumpsHere then
      session.dir.write (run.moduleName ++ ".mlw") mlw.toUTF8 else session.dir) = some files := by
    split
    · rw [attestedSources_write (mlw_not_source run.moduleName), hasSources]
    · exact hasSources
  have digest : sourcesDigestText (if run.dumpsHere then
      session.dir.write (run.moduleName ++ ".mlw") mlw.toUTF8 else session.dir) =
      some (Nat.toDigits 10 (fnv1a (digestInput files)).toNat) := by
    rw [sourcesDigestText, kept, Option.map_some, u64Decimal_fnv1aString]
  refine readToString_of_read ?_
  rw [VerifierRun.verify, hasContracts]
  simp only [writeSidecar, records.sidecar]
  cases outcome : run.outcome with
  | noEngine message => exact absurd outcome (records.prover message)
  | proved | refused | unknown =>
    simp only [digest, u64Decimal_fnv1aString, Directory.read_write_self]

theorem described_of_fresh (fresh : Fresh start) : Described name start := by
  rw [Described, fresh.noHistory]
  intro _ read
  rw [Directory.readToString, Directory.read, fresh.noSidecar] at read
  cases read

theorem Described.verify (described : Described name session)
    (records : run.constraints.isSome → Records name session run) :
    Described name (session.verify run) := by
  cases hasContracts : run.constraints with
  | none =>
    have unchanged : session.verify run = session := by
      simp [Session.verify, VerifierRun.verify, hasContracts]
    rw [unchanged]
    exact described
  | some =>
    have records := records (by rw [hasContracts]; rfl)
    obtain ⟨files, hasSources⟩ := Option.isSome_iff_exists.mp records.sources
    rw [Described, Session.verify]
    simp only [hasContracts, Option.isSome_some, if_true]
    exact ⟨records.only, files, _, run.why3Cli, hasSources, records.oneLine,
      readToString_verify hasContracts records hasSources⟩

theorem Described.edit {dir : Directory} (described : Described name session)
    (kept : dir.read "liquid.ok" = session.dir.read "liquid.ok") :
    Described name { session with dir } := by
  have same : dir.readToString "liquid.ok" = session.dir.readToString "liquid.ok" := by
    rw [Directory.readToString, Directory.readToString, kept]
  rw [Described] at described ⊢
  dsimp only
  rw [same]
  exact described

theorem described_of_run (fresh : Fresh start) (run : Relation.ReflTransGen
      (Step fun session run => run.constraints.isSome → Records name session run) start session) :
    Described name session := by
  induction run with
  | refl => exact described_of_fresh fresh
  | tail _ step described =>
    cases step with
    | verify _ records => exact described.verify records
    | edit _ kept => exact described.edit kept

/-! ## Acceptance -/

theorem acceptVerdict_eq_ok (accepted : acceptVerdict attestation = .ok note) :
    attestation.verdict = "proved" := by
  rw [acceptVerdict] at accepted
  split_ifs at accepted with proved
  exact proved

theorem checkMlw_eq_ok {dir : Directory} {file : String × Except String ByteArray} :
    checkMlw dir mlwHash file = .ok () ↔
      ∀ bytes, file.2 = .ok bytes → fnv1a bytes.data.toList = mlwHash := by
  rw [checkMlw]
  cases file.2 with
  | error => simp
  | ok => simp

theorem checkAttestation_eq_ok {dir : Directory}
    (accepted : checkAttestation dir attestation = .ok note) :
    ∃ files, dir.sourceFiles.mapM (readSource dir) = .ok files ∧
      attestation.sourcesHash = fnv1a (digestInput files) ∧
      (∀ file ∈ dir.select fun name => extension name = some "mlw", ∀ bytes,
        file.2 = .ok bytes → fnv1a bytes.data.toList = attestation.mlwHash) ∧
      attestation.verdict = "proved" := by
  rw [checkAttestation] at accepted
  split at accepted
  · cases accepted
  next digest hashed =>
    obtain ⟨files, readFiles, rfl⟩ := Comp.map_eq_ok.mp hashed
    split_ifs at accepted with stale
    · cases accepted
    obtain ⟨⟨⟩, checked, verdict⟩ := Comp.bind_eq_ok.mp accepted
    refine ⟨files, readFiles, not_not.mp stale, fun file inDir => ?_, acceptVerdict_eq_ok verdict⟩
    exact checkMlw_eq_ok.mp (Comp.forM_eq_ok.mp checked file inDir)

/-- The sidecar of a directory speaks of these sources, which are those in the
directory, and of its verification files, and says that they are proved. -/
structure SourcesAttested (dir : Directory) (files : List (String × ByteArray))
    (attestation : Attestation) : Prop where
  sidecar : ∃ text, dir.readToString "liquid.ok" = .ok text ∧
    parseAttestation text = .ok attestation
  sources : dir.sourceFiles.mapM (readSource dir) = .ok files
  digest : attestation.sourcesHash = fnv1a (digestInput files)
  verification : ∀ file ∈ dir.select fun name => extension name = some "mlw", ∀ bytes,
    file.2 = .ok bytes → fnv1a bytes.data.toList = attestation.mlwHash
  verdict : attestation.verdict = "proved"

theorem sourcesAttested_of_verifyModule {dir : Directory} {note : String}
    (accepted : verifyModule dir .required = .ok note) :
    ∃ files attestation, SourcesAttested dir files attestation := by
  rw [verifyModule, if_neg (by decide)] at accepted
  split at accepted
  · cases accepted
  next text read =>
    split at accepted
    · cases accepted
    next attestation parsed =>
      obtain ⟨files, readFiles, digest, mlw, verdict⟩ := checkAttestation_eq_ok accepted
      exact ⟨files, attestation, ⟨text, read, parsed⟩, readFiles, digest, mlw, verdict⟩

theorem visible_verdictText (outcome : Outcome) :
    ∀ char ∈ (verdictText outcome).toList, ¬ isWhitespace char := by
  apply visible_of_all
  cases outcome <;> (rw [verdictText]; decide)

theorem isProved_of_verdictText (proved : verdictText outcome = "proved") : outcome.isProved := by
  cases outcome with
  | proved => rfl
  | refused | unknown | noEngine => simp [verdictText] at proved

/-- In every session of recorded runs on one module, a directory that the host accepts
was proved, unless two versions of the sources have the same digest. -/
theorem accepted_directory_proved {contracted : List (String × ByteArray) → List String}
    {note : String} (fresh : Fresh start) (run : Relation.ReflTransGen
      (Step fun session run => run.constraints.isSome → Records name session run) start session)
    (single : ∀ files, session.sources = .ok files → ∀ module ∈ contracted files, module = name)
    (distinct : ∀ verification ∈ session.history, ∀ files recorded, session.sources = .ok files →
      verification.sources = some recorded →
      fnv1a (digestInput recorded) = fnv1a (digestInput files) → recorded = files)
    (accepted : verifyModule session.dir .required = .ok note) : session.Proved contracted := by
  intro files onDisk module isContracted
  obtain rfl := single files onDisk module isContracted
  have described := described_of_run fresh run
  obtain ⟨_, _, ⟨text, read, parsed⟩, onDisk', sameDigest, -, proved⟩ :=
    sourcesAttested_of_verifyModule accepted
  cases onDisk.symm.trans onDisk'
  rw [Described] at described
  cases past : session.history with
  | nil =>
    rw [past] at described
    exact absurd read (described text)
  | cons verification =>
    rw [past] at described
    obtain ⟨named, recorded, mlwHash, _, hasSources, oneLine, written⟩ := described
    obtain ⟨_, parsedBack⟩ := parseAttestation_sidecarText (fnv1a (digestInput recorded))
      mlwHash oneLine (visible_verdictText verification.outcome)
    rw [← Except.ok.inj (read.symm.trans written), parsed] at parsedBack
    cases parsedBack
    have sameSources : recorded = files := distinct verification (past ▸ mem_cons_self) files
      recorded onDisk hasSources sameDigest
    refine ⟨verification, by simp [named], sameSources ▸ hasSources, ?_⟩
    exact isProved_of_verdictText proved

/-- A directory right after a recorded run that proved its module is accepted, if the
compiler and the host agree on which files are sources and no verification file is
in it. -/
theorem accepts_of_verify (hasContracts : run.constraints = some mlw)
    (records : Records name session run) (proved : run.outcome.isProved)
    (hasSources : attestedSources session.dir = some files)
    (onDisk : (session.verify run).sources = .ok files)
    (noMlw : ((run.verify session.dir).select fun name => extension name = some "mlw") = []) :
    ∃ note, verifyModule (session.verify run).dir .required = .ok note := by
  obtain ⟨prover, parsed⟩ := parseAttestation_sidecarText (fnv1a (digestInput files))
    (fnv1a mlw.toUTF8.data.toList) records.oneLine (visible_verdictText run.outcome)
  have digest : sourcesDigest (run.verify session.dir) = .ok (fnv1a (digestInput files)) :=
    Comp.map_eq_ok.mpr ⟨files, onDisk, rfl⟩
  cases outcome : run.outcome with
  | proved =>
    rw [outcome] at parsed
    have checked : verifyModule (session.verify run).dir .required =
        acceptVerdict ⟨fnv1a (digestInput files), fnv1a mlw.toUTF8.data.toList, prover, "0",
          "proved", 0⟩ := by
      rw [Session.verify, verifyModule, if_neg (by decide)]
      simp only [readToString_verify hasContracts records hasSources, outcome, parsed,
        checkAttestation, digest, noMlw, ne_eq, not_true_eq_false, if_false]
      rfl
    exact ⟨_, checked.trans rfl⟩
  | refused | unknown | noEngine =>
    rw [outcome] at proved
    cases proved

def demoFiles : List (String × ByteArray) :=
  [("Demo.aum", "module body Demo is end module body.".toUTF8)]

def demoSession : Session where
  dir := ⟨"demo", demoFiles.map fun (name, bytes) => (name, .ok bytes), by simp [demoFiles]⟩
  history := []

def demoRun (name : String) (outcome : Outcome) : VerifierRun :=
  ⟨name, some "theory end", false, true, "why3", outcome⟩

/-- A directory whose one module is proved. -/
theorem accepted_directory_proved_at_demo :
    (demoSession.verify (demoRun "Demo" (.proved 1))).Proved fun _ => ["Demo"] := by
  have records : Records "Demo" demoSession (demoRun "Demo" (.proved 1)) :=
    ⟨rfl, rfl, nofun, rfl, by decide⟩
  have hasSources : attestedSources demoSession.dir = some demoFiles := rfl
  obtain ⟨_, accepted⟩ := accepts_of_verify rfl records rfl hasSources rfl rfl
  refine accepted_directory_proved ⟨rfl, rfl⟩ (.single (.verify _ fun _ => records)) ?_ ?_ accepted
  · intro _ _ _ isContracted
    exact mem_singleton.mp isContracted
  · intro _ inHistory _ _ onDisk hasSources _
    obtain rfl := mem_singleton.mp inHistory
    cases onDisk
    cases hasSources
    rfl

/-- The second of two modules is proved and hides that the first was refused. -/
theorem refused_module_is_accepted :
    let session := (demoSession.verify (demoRun "First" (.refused ["first_post"]))).verify
      (demoRun "Second" (.proved 1))
    (∃ note, verifyModule session.dir .required = .ok note) ∧
      ¬ session.Proved fun _ => ["First", "Second"] := by
  have records : Records "Second" (demoSession.verify (demoRun "First" (.refused ["first_post"])))
      (demoRun "Second" (.proved 1)) := ⟨rfl, rfl, nofun, rfl, by decide⟩
  have hasSources : attestedSources
      (demoSession.verify (demoRun "First" (.refused ["first_post"]))).dir = some demoFiles := rfl
  refine ⟨accepts_of_verify rfl records rfl hasSources rfl rfl, fun proved => ?_⟩
  obtain ⟨_, found, -, isProved⟩ := proved demoFiles rfl "First" (by simp)
  cases found
  cases isProved

end Session

end AustralVM.Host
