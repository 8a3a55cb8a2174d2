import AustralVM.AuthEngine
import AustralVM.Errors

/-!
# Module manifests

A directory that a module is hosted from, and the manifest in it as the module
host reads it.  The text goes through one TOML reader, which is a parameter; the
host takes the fields that it can find and has defaults for the others, while
the authorization engine refuses a text with a field of the wrong type.
-/

namespace AustralVM.Host

open Auth

/-! ## Directories -/

/-- A directory: its files by name, each with its bytes or the reason why it
cannot be read. -/
structure Directory where
  path : String
  files : List (String × Except String ByteArray)
  named : (files.map Prod.fst).Nodup

namespace Directory

def join (dir : Directory) (name : String) : String := dir.path ++ "/" ++ name

def read (dir : Directory) (name : String) : Except String ByteArray :=
  match dir.files.lookup name with
  | some content => content
  | none => .error "No such file or directory (os error 2)"

def readToString (dir : Directory) (name : String) : Except String String := do
  let bytes ← dir.read name
  match String.fromUTF8? bytes with
  | some text => .ok text
  | none => .error "stream did not contain valid UTF-8"

end Directory

/-! ## TOML values -/

/-- A value of a TOML text; floats, booleans and dates are never looked into. -/
inductive TomlValue
  | string (text : String)
  | integer (value : Int64)
  | array (items : List TomlValue)
  | table (fields : List (String × TomlValue))
  | other

open TomlValue

namespace TomlValue

def get (value : TomlValue) (key : String) : Option TomlValue :=
  match value with
  | .table fields => fields.lookup key
  | _ => none

def asStr : TomlValue → Option String
  | .string text => some text
  | _ => none

def asInteger : TomlValue → Option Int64
  | .integer value => some value
  | _ => none

def asArray : TomlValue → Option (List TomlValue)
  | .array items => some items
  | _ => none

/-- The strings of an array; what is not a string is skipped. -/
def strings (value : TomlValue) : List String := (value.asArray.getD []).filterMap asStr

def grant (value : TomlValue) (key : String) : List String :=
  (((value.get "grants").bind (·.get key)).map strings).getD []

end TomlValue

abbrev Toml := String → Except String TomlValue

/-! ## The manifest of the module host -/

inductive GatekeeperMode
  | enabled
  | optional
  | disabled
  deriving DecidableEq, Repr

def GatekeeperMode.fromToml (text : String) : GatekeeperMode :=
  if text = "disabled" then .disabled
  else if text = "optional" then .optional
  else .enabled

structure ModuleManifest where
  name : String
  version : String
  archetypes : List String
  archetype : String
  entry : String
  grants : List String
  effects : List String
  effectKinds : List (String × String)
  observers : List String
  resources : List String
  fsGrants : List String
  netGrants : List String
  maxMs : Option UInt64
  memoryMaxBytes : Option UInt64
  gatekeeperMode : GatekeeperMode
  deriving DecidableEq, Repr

open ModuleManifest

namespace ModuleManifest

/-- An effect with an annotation; the annotation is a mutation unless it says
otherwise. -/
def effectKind (item : TomlValue) : Option (String × String) :=
  ((item.get "name").bind asStr).map fun name =>
    (name, ((item.get "effect_kind").bind asStr).getD "mutate")

def limit (value : TomlValue) (key : String) : Option UInt64 :=
  (((value.get "limits").bind (·.get key)).bind asInteger).map Int64.toUInt64

def ofValue (value : TomlValue) : Except String ModuleManifest :=
  match value.get "module" with
  | none => .error "missing [module] section"
  | some module =>
    match (module.get "name").bind asStr with
    | none => .error "missing module.name"
    | some name => .ok {
        name
        version := ((module.get "version").bind asStr).getD "0.0.0"
        archetypes := ((module.get "archetypes").map strings).getD []
        archetype := ((module.get "archetype").bind asStr).getD "austral_cps"
        entry := ((module.get "entry").bind asStr).getD "run"
        grants := value.grant "kernel"
        effects := value.grant "effects"
        effectKinds := ((((value.get "grants").bind (·.get "effects")).bind
          asArray).getD []).filterMap effectKind
        observers := value.grant "observers"
        resources := value.grant "resources"
        fsGrants := value.grant "fs"
        netGrants := value.grant "net"
        maxMs := limit value "max_ms"
        memoryMaxBytes := limit value "memory_bytes"
        gatekeeperMode := (((value.get "gatekeeper").bind (·.get "mode")).bind
          asStr).elim .enabled GatekeeperMode.fromToml }

def fromTomlStr (toml : Toml) (text : String) : Except String ModuleManifest :=
  match toml text with
  | .error error => .error ("TOML parse error: " ++ error)
  | .ok value => ofValue value

end ModuleManifest

/-! ## The manifest of the authorization engine

The fields are those of `ManifestToml`, and their types are checked. -/

def deserializeDefault {α : Type} (default : α) (deserialize : TomlValue → Except String α)
    (value : TomlValue) (key : String) : Except String α :=
  match value.get key with
  | none => .ok default
  | some field => deserialize field

def deserializeString : TomlValue → Except String String
  | .string text => .ok text
  | _ => .error "invalid type: expected a string"

def deserializeStrings : TomlValue → Except String (List String)
  | .array items => items.mapM deserializeString
  | _ => .error "invalid type: expected a sequence"

def deserializeTable : TomlValue → Except String TomlValue
  | .table fields => .ok (.table fields)
  | _ => .error "invalid type: expected a table"

def deserializeName (value : TomlValue) : Except String String :=
  match value.get "module" with
  | none => .error "missing field `module`"
  | some module => do
    let module ← deserializeTable module
    match module.get "name" with
    | none => .error "missing field `name`"
    | some name => deserializeString name

def deserializeManifest (value : TomlValue) : Except String ManifestToml := do
  let moduleName ← deserializeName value
  let grants ← deserializeDefault (.table []) deserializeTable value "grants"
  let kernel ← deserializeDefault [] deserializeStrings grants "kernel"
  let effects ← deserializeDefault [] deserializeStrings grants "effects"
  let zenodo ← deserializeDefault [] deserializeStrings grants "zenodo"
  let verify ← deserializeDefault (.table []) deserializeTable value "verify"
  let liquid ← deserializeDefault none (fun field => some <$> deserializeString field) verify "liquid"
  let qualifiers ← deserializeDefault [] deserializeStrings verify "qualifiers"
  return { moduleName, kernel, effects, zenodo, liquid, qualifiers }

def tomlReader (toml : Toml) : TomlReader where
  manifest text := toml text >>= deserializeManifest
  nameOnly text := toml text >>= deserializeName

/-! ### What the two readers agree on -/

theorem deserializeString_eq_ok : deserializeString value = .ok text ↔ value = .string text := by
  cases value <;> simp [deserializeString]

theorem deserializeStrings_eq_ok :
    deserializeStrings value = .ok names ↔ value = .array (names.map .string) := by
  cases value with
  | array =>
    rw [deserializeStrings, Comp.mapM_eq_ok, array.injEq, eq_comm (b := names.map _),
      ← List.forall₂_eq_eq_eq, List.forall₂_map_left_iff]
    constructor
    · intro read
      exact read.flip.imp fun name item same => (deserializeString_eq_ok.mp same).symm
    · intro read
      exact read.flip.imp fun item name same => deserializeString_eq_ok.mpr same.symm
  | string | integer | table | other => simp [deserializeStrings]

theorem TomlValue.strings_map_string (names : List String) :
    (array (names.map .string)).strings = names := by
  simp [strings, asArray, asStr, Function.comp_def]

theorem get_of_deserializeTable
    (read : deserializeDefault (.table []) deserializeTable value key = .ok part) (field : String) :
    part.get field = (value.get key).bind (·.get field) := by
  rw [deserializeDefault] at read
  cases found : value.get key with
  | none =>
    rw [found] at read
    cases read
    rfl
  | some inner =>
    rw [found] at read
    cases inner with
    | table =>
      cases read
      rfl
    | string | integer | array | other => cases read

theorem strings_of_deserializeStrings
    (read : deserializeDefault [] deserializeStrings part key = .ok names) :
    ((part.get key).map strings).getD [] = names ∧
      (((part.get key).bind asArray).getD []).filterMap effectKind = [] := by
  rw [deserializeDefault] at read
  cases found : part.get key with
  | none =>
    rw [found] at read
    cases read
    exact ⟨rfl, rfl⟩
  | some =>
    rw [found] at read
    rw [deserializeStrings_eq_ok.mp read]
    refine ⟨strings_map_string names, ?_⟩
    simp [TomlValue.asArray, effectKind, TomlValue.get]

theorem deserializeManifest_eq_ok (read : deserializeManifest value = .ok manifest) :
    deserializeName value = .ok manifest.moduleName ∧
      value.grant "kernel" = manifest.kernel ∧ value.grant "effects" = manifest.effects ∧
      value.grant "zenodo" = manifest.zenodo ∧ ((((value.get "grants").bind (·.get "effects")).bind
        asArray).getD []).filterMap effectKind = [] := by
  rw [deserializeManifest] at read
  simp only [Comp.bind_eq_ok, Comp.pure_eq_ok] at read
  obtain ⟨_, readName, _, readGrants, _, readKernel, _, readEffects, _,
    readZenodo, _, -, _, -, _, -, rfl⟩ := read
  have field := get_of_deserializeTable readGrants
  have listedEffects := strings_of_deserializeStrings readEffects
  rw [field] at listedEffects
  refine ⟨readName, ?_, listedEffects.1, ?_, listedEffects.2⟩
  · rw [grant, ← field]
    exact (strings_of_deserializeStrings readKernel).1
  · rw [grant, ← field]
    exact (strings_of_deserializeStrings readZenodo).1

/-- A text that both readers accept has one name, grants without annotations and
the calls of the manifest among those of the engine. -/
theorem manifests_agree (read : fromTomlStr toml text = .ok manifest)
    (accepted : (tomlReader toml).manifest text = .ok declared) :
    declared.moduleName = manifest.name ∧ declared.kernel = manifest.grants ∧
      declared.effects = manifest.effects ∧ manifest.effectKinds = [] := by
  obtain ⟨value, parsed, deserialized⟩ := Comp.bind_eq_ok.mp accepted
  obtain ⟨name, kernel, effects, -, plain⟩ := deserializeManifest_eq_ok deserialized
  rw [fromTomlStr, parsed] at read
  simp only [ofValue] at read
  rw [deserializeName] at name
  cases section? : value.get "module" with
  | none =>
    rw [section?] at read
    cases read
  | some module =>
    simp only [section?] at read name
    cases named : (module.get "name").bind asStr with
    | none =>
      rw [named] at read
      cases read
    | some =>
      rw [named] at read
      cases read
      refine ⟨?_, kernel.symm, effects.symm, plain⟩
      cases module with
      | table =>
        obtain ⟨_, found, isText⟩ := Option.bind_eq_some_iff.mp named
        obtain ⟨_, ⟨⟩, readName⟩ := Comp.bind_eq_ok.mp name
        rw [found] at readName
        rw [deserializeString_eq_ok.mp readName] at isText
        exact Option.some.inj isText
      | string | integer | array | other => cases named

end AustralVM.Host
