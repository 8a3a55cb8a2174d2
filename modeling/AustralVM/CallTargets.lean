import Mathlib.Data.List.Induction
import AustralVM.CpsLowering
import AustralVM.CpsReader

/-!
# Where calls lead

In the monomorphic tree a call names the id of its declaration.  The CPS lowering
turns it into a call of a text, and the reader and the linker look the text up:
first among the functions of the same binary, then among the symbols that earlier
binaries have exported, and last among the symbols of the host.  A compilation
makes a binary of every module; a hot swap makes one of all modules.
-/

namespace AustralVM

open List Option CpsTables Prod
open String (toList_append append_right_inj)

/-! ## What modules export -/

inductive Emitted
  | function (id : DeclId)
  | constant (id : DeclId)
  | monomorph (id : MonoId)
  | method (id : MonoId)
  deriving DecidableEq, Repr

/-- The declaration, and the name its code is emitted under. -/
def MDecl.emitted : MDecl → Option (Emitted × String)
  | .function id name _ _ _ => some (.function id, name.string)
  | .functionMonomorph id _ _ _ => some (.monomorph id, "monomorph_" ++ showMonoId id)
  | .methodMonomorph id _ _ _ => some (.method id, "method_" ++ showMonoId id)
  | .constant id name _ _ => some (.constant id, name.string)
  | _ => none

def MonoModule.emitted (source : MonoModule) : List (Emitted × String) :=
  source.decls.filterMap MDecl.emitted

/-- The symbols under which code is exported, in order, and the symbols that are
claimed after it. -/
def claimSymbols (claimed : List String) :
    List (Emitted × String) → List (String × Emitted) × List String
  | [] => ([], claimed)
  | (code, name) :: rest =>
    let symbol := Jit.claimExportSymbol claimed name
    let (symbols, claimed) := claimSymbols (symbol :: claimed) rest
    ((symbol, code) :: symbols, claimed)

/-- The symbols of the modules that are linked so far. -/
structure LinkedSymbols where
  symbols : List (String × Emitted)
  claimed : List String

def LinkedSymbols.add (linked : LinkedSymbols) (source : MonoModule) : LinkedSymbols :=
  let (symbols, claimed) := claimSymbols linked.claimed source.emitted
  ⟨linked.symbols ++ symbols, claimed⟩

def linkModules (modules : List MonoModule) : LinkedSymbols :=
  modules.foldl LinkedSymbols.add ⟨[], []⟩

/-! ## Where a call leads -/

inductive Destination
  | code (emitted : Emitted)
  /-- A symbol of the host. -/
  | symbol (name : String)
  /-- A method of an instance without type parameters. -/
  | instanceMethod (id : InsMethId)
  deriving DecidableEq, Repr

/-- Where a call of a name leads from a binary: its table holds the last function
of each name. -/
def destination (linked : LinkedSymbols) (binary : List (Emitted × String)) (name : String) :
    Destination :=
  match callTarget (binary.map snd) name with
  | .defined name =>
    match binary.reverse.find? fun entry => entry.2 = name with
    | some entry => .code entry.1
    | none => .symbol name
  | .imported name =>
    match linked.symbols.lookup name with
    | some emitted => .code emitted
    | none => .symbol name

theorem destination_ne_instanceMethod (linked : LinkedSymbols) (binary : List (Emitted × String))
    (name : String) (id : InsMethId) : destination linked binary name ≠ .instanceMethod id := by
  rw [destination]
  split <;> split <;> exact Destination.noConfusion

/-- A program and the module of it that is being lowered. -/
structure Program where
  /-- `Austral.Pervasive` and `Austral.Memory`, which are compiled before the
  compiler is told to lower anything: they have no CPS code. -/
  builtin : List MonoModule
  before : List MonoModule
  current : MonoModule
  after : List MonoModule
  /-- What earlier runs have left in the tables, which are never cleared. -/
  stale : List MDecl

inductive Route
  /-- Every module is a binary of its own, for the engine that has those before it. -/
  | compile
  /-- All modules are one binary, for a new engine. -/
  | swap
  deriving DecidableEq, Repr

def declsOf (modules : List MonoModule) : List MDecl := modules.flatMap MonoModule.decls

namespace Program

def lowered (program : Program) : List MonoModule :=
  program.before ++ program.current :: program.after

def decls (program : Program) : List MDecl := declsOf (program.builtin ++ program.lowered)

/-- The declarations whose foreign functions are in the tables. -/
def registered (program : Program) : List MDecl :=
  program.stale ++ declsOf (program.before ++ [program.current])

def tables (program : Program) (floatOfString : String → Option OcamlFloat) : CpsTables :=
  (program.before ++ [program.current]).foldl
    (fun tables source => (compileModuleCps tables source).2)
    ((initial floatOfString).registerAll program.stale)

def destination (program : Program) : Route → String → Destination
  | .compile => AustralVM.destination (linkModules program.before) program.current.emitted
  | .swap => AustralVM.destination ⟨[], []⟩ (program.lowered.flatMap MonoModule.emitted)

def reached (program : Program) (floatOfString : String → Option OcamlFloat) (route : Route)
    (call : MExpr) : Option Destination :=
  match convertExpr (program.tables floatOfString) call with
  | .app name _ => some (program.destination route name)
  | _ => none

end Program

/-- The declaration that a direct call refers to, and in which form it is there:
a foreign function is the symbol of the host. -/
inductive RefersTo (decls : List MDecl) : MExpr → Destination → Prop
  | function {id : DeclId} {name : QIdent} {args : List MExpr} {callRt rt : MonoTy}
      {params : List MValueParameter} {body : MStmt}
      (declared : .function id name.original params rt body ∈ decls) :
      RefersTo decls (.concreteFuncall id name args callRt) (.code (.function id))
  | foreign {id : DeclId} {name : QIdent} {args : List MExpr} {callRt rt : MonoTy}
      {params : List MValueParameter} {symbol : String}
      (declared : .foreignFunction id name.original params rt symbol ∈ decls) :
      RefersTo decls (.concreteFuncall id name args callRt) (.symbol symbol)
  | monomorph {id : MonoId} {args : List MExpr} {callRt rt : MonoTy}
      {params : List MValueParameter} {body : MStmt}
      (declared : .functionMonomorph id params rt body ∈ decls) :
      RefersTo decls (.genericFuncall id args callRt) (.code (.monomorph id))
  | methodMonomorph {method : InsMethId} {id : MonoId} {args : List MExpr} {callRt rt : MonoTy}
      {params : List MValueParameter} {body : MStmt}
      (declared : .methodMonomorph id params rt body ∈ decls) :
      RefersTo decls (.genericMethodCall method id args callRt) (.code (.method id))
  | method {id : DeclId} {typeclassName name : QIdent} {argument : MonoTy}
      {methods : List ConcreteMethod} {method : ConcreteMethod} {args : List MExpr} {rt : MonoTy}
      (declared : .concreteInstance id typeclassName argument methods ∈ decls)
      (member : method ∈ methods) :
      RefersTo decls (.concreteMethodCall method.id name args rt) (.instanceMethod method.id)

/-! ## Symbols and names -/

/-- A name without the mark that the linker adds to names that are taken. -/
def Plain (name : String) : Prop := '#' ∉ name.toList

instance (name : String) : Decidable (Plain name) :=
  inferInstanceAs (Decidable ('#' ∉ name.toList))

theorem not_plain_freeSuffix (claimed : List String) (name : String) (fuel number : Nat) :
    ¬ Plain (Jit.freeSuffix claimed name fuel number) := by
  have marked : ∀ number : Nat, '#' ∈ (s!"{name}#{number}").toList := by
    intro _
    simp only [toList_append, mem_append]
    exact .inl (.inr (by decide))
  induction fuel generalizing number with
  | zero => exact fun plain => plain (marked number)
  | succ _ ih =>
    rw [Jit.freeSuffix]
    split
    · exact ih (number + 1)
    · exact fun plain => plain (marked number)

variable {name : String}

theorem claimExportSymbol_eq_iff (plain : Plain symbol) :
    Jit.claimExportSymbol claimed name = symbol ↔ name = symbol ∧ symbol ∉ claimed := by
  rw [Jit.claimExportSymbol]
  split
  · rename_i taken
    refine iff_of_false ?_ ?_
    · rintro rfl
      exact not_plain_freeSuffix _ _ _ _ plain
    · rintro ⟨rfl, free⟩
      exact free taken
  · rename_i free
    constructor
    · rintro rfl
      exact ⟨rfl, free⟩
    · exact And.left

theorem lookup_claimSymbols {symbol : String} (plain : Plain symbol) :
    (claimSymbols claimed emitted).1.lookup symbol = (if symbol ∈ claimed then none
         else (emitted.find? fun entry => entry.2 = symbol).map fst) ∧
      (symbol ∈ (claimSymbols claimed emitted).2 ↔
        symbol ∈ claimed ∨ ∃ entry ∈ emitted, entry.2 = symbol) := by
  induction emitted generalizing claimed with
  | nil => simp [claimSymbols]
  | cons entry _ ih =>
    obtain ⟨_, name⟩ := entry
    obtain ⟨found, claims⟩ := @ih (Jit.claimExportSymbol claimed name :: claimed)
    simp only [claimSymbols, lookup_cons, found, claims, mem_cons]
    by_cases own : Jit.claimExportSymbol claimed name = symbol
    · obtain ⟨rfl, free⟩ := (claimExportSymbol_eq_iff plain).mp own
      simp [own, free]
    · have differs : ¬ symbol = Jit.claimExportSymbol claimed name := fun same => own same.symm
      have notSame := beq_eq_false_iff_ne.mpr differs
      rw [claimExportSymbol_eq_iff plain, not_and_not_right] at own
      by_cases taken : symbol ∈ claimed
      · simp [differs, notSame, taken]
      · have otherName : ¬ name = symbol := fun same => taken (own same)
        simp [differs, notSame, taken, otherName]

theorem lookup_linkModules (modules : List MonoModule) (plain : Plain symbol) :
    (linkModules modules).symbols.lookup symbol =
        ((modules.flatMap MonoModule.emitted).find? fun entry => entry.2 = symbol).map fst ∧
      (symbol ∈ (linkModules modules).claimed ↔
        ∃ entry ∈ modules.flatMap MonoModule.emitted, entry.2 = symbol) := by
  induction modules using List.reverseRecOn with
  | nil => simp [linkModules]
  | append_singleton modules source ih =>
    obtain ⟨found, claims⟩ := ih
    obtain ⟨foundNew, claimsNew⟩ :=
      @lookup_claimSymbols (linkModules modules).claimed source.emitted symbol plain
    have added : linkModules (modules ++ [source]) = (linkModules modules).add source := by
      simp [linkModules]
    simp only [added, LinkedSymbols.add, lookup_append, found, foundNew, claimsNew, claims,
      flatMap_append, find?_append, flatMap_singleton, mem_append, or_and_right, exists_or, and_true]
    cases first : (modules.flatMap MonoModule.emitted).find? fun entry => entry.2 = symbol with
    | some => rfl
    | none =>
      have absent : ¬ ∃ entry ∈ modules.flatMap MonoModule.emitted, entry.2 = symbol := by
        rintro ⟨entry, member, same⟩
        exact absurd same (by simpa using find?_eq_none.mp first entry member)
      simp only [if_neg absent, map_none, none_or]

namespace Program

/-- The code that a name may stand for, the first choice first: that of the own
binary from its end on, then that of the earlier binaries in order. -/
def candidates (program : Program) : Route → List (Emitted × String)
  | .compile => program.current.emitted.reverse ++ program.before.flatMap MonoModule.emitted
  | .swap => (program.lowered.flatMap MonoModule.emitted).reverse

end Program

theorem destination_eq {linked : LinkedSymbols} {earlier : List (Emitted × String)}
    (binary : List (Emitted × String)) (lookups : linked.symbols.lookup name =
      (earlier.find? fun entry => entry.2 = name).map fst) :
    destination linked binary name =
      match (binary.reverse ++ earlier).find? fun entry => entry.2 = name with
      | some entry => .code entry.1
      | none => .symbol name := by
  rw [destination, callTarget, find?_append]
  by_cases own : name ∈ binary.map snd
  · obtain ⟨entry, member, same⟩ := mem_map.mp own
    have found : (binary.reverse.find? fun entry => entry.2 = name).isSome := by
      rw [find?_isSome]
      exact ⟨entry, mem_reverse.mpr member, by simpa using same⟩
    obtain ⟨_, isFirst⟩ := isSome_iff_exists.mp found
    simp only [if_pos own, isFirst, Option.or]
  · have absent : (binary.reverse.find? fun entry => entry.2 = name) = none := by
      rw [find?_eq_none]
      intro entry member
      have differs : entry.2 ≠ name := fun same =>
        own (mem_map.mpr ⟨entry, mem_reverse.mp member, same⟩)
      simpa using differs
    simp only [if_neg own, absent, none_or, lookups]
    cases earlier.find? fun entry => entry.2 = name <;> rfl

theorem Program.destination_eq (program : Program) (route : Route) (plain : Plain name) :
    program.destination route name =
      match (program.candidates route).find? fun entry => entry.2 = name with
      | some entry => .code entry.1
      | none => .symbol name := by
  cases route with
  | compile =>
    exact AustralVM.destination_eq program.current.emitted (lookup_linkModules _ plain).1
  | swap =>
    have none : (⟨[], []⟩ : LinkedSymbols).symbols.lookup name =
        (([] : List (Emitted × String)).find? fun entry => entry.2 = name).map fst := rfl
    rw [candidates, ← append_nil (reverse _)]
    exact AustralVM.destination_eq _ none

theorem Program.decl_of_candidate {program : Program} (member : entry ∈ program.candidates route) :
    ∃ decl ∈ program.decls, decl.emitted = some entry := by
  have isEmitted : ∃ source ∈ program.lowered, entry ∈ source.emitted := by
    cases route with
    | compile =>
      rcases mem_append.mp member with own | earlier
      · exact ⟨_, mem_append_right _ mem_cons_self, mem_reverse.mp own⟩
      · obtain ⟨source, inBefore, emitted⟩ := mem_flatMap.mp earlier
        exact ⟨source, mem_append_left _ inBefore, emitted⟩
    | swap => exact mem_flatMap.mp (mem_reverse.mp member)
  obtain ⟨source, isLowered, emitted⟩ := isEmitted
  obtain ⟨decl, declared, emits⟩ := mem_filterMap.mp emitted
  exact ⟨decl, mem_flatMap.mpr ⟨source, mem_append_right _ isLowered, declared⟩, emits⟩

/-! ## The foreign functions in the tables -/

def MDecl.foreignWithId (id : DeclId) : MDecl → Option String
  | .foreignFunction other _ _ _ symbol => if id = other then some symbol else none
  | _ => none

/-- The symbol of a foreign function with a name. -/
def MDecl.foreignNamed (name : String) : MDecl → Option String
  | .foreignFunction _ other _ _ symbol => if name = other.string then some symbol else none
  | _ => none

theorem lookup_registerAll (tables : CpsTables) (decls : List MDecl) (id : DeclId) (name : String) :
    (tables.registerAll decls).foreignFunctions.lookup id =
        (decls.reverse.findSome? (MDecl.foreignWithId id)).or (tables.foreignFunctions.lookup id) ∧
      (tables.registerAll decls).foreignFunctionsByName.lookup name =
        (decls.reverse.findSome? (MDecl.foreignNamed name)).or
          (tables.foreignFunctionsByName.lookup name) := by
  induction decls using List.reverseRecOn with
  | nil => simp [registerAll]
  | append_singleton decls decl ih =>
    have added : tables.registerAll (decls ++ [decl]) =
        (tables.registerAll decls).register decl := by
      simp [registerAll]
    rw [added, reverse_append, reverse_singleton, singleton_append]
    cases decl with
    | foreignFunction other otherName =>
      simp only [register, lookup_cons, findSome?_cons, MDecl.foreignWithId, MDecl.foreignNamed, ih]
      constructor
      · by_cases same : id = other
        · simp [same]
        · simp [same, beq_eq_false_iff_ne.mpr same]
      · by_cases same : name = otherName.string
        · simp [same]
        · simp [same, beq_eq_false_iff_ne.mpr same]
    | _ => exact ih

theorem Program.tables_eq (program : Program) (floatOfString : String → Option OcamlFloat) :
    program.tables floatOfString = (initial floatOfString).registerAll program.registered := by
  rw [registered, registerAll, foldl_append, declsOf, foldl_flatMap]
  rfl

/-- The symbol that the tables have for a call: that of the foreign function with
the id, or else that of the last one with the name. -/
def Program.foreignSymbol (program : Program) (id : DeclId) (name : String) : Option String :=
  (program.registered.reverse.findSome? (MDecl.foreignWithId id)).or
    (program.registered.reverse.findSome? (MDecl.foreignNamed name))

/-! ## Names of declarations -/

/-- Names as the lexer makes them: letters, digits and underscores. -/
def IsWord (name : String) : Prop := ∀ letter ∈ name.toList, letter.isAlphanum ∨ letter = '_'

theorem IsWord.not_mem (word : IsWord name) (other : ¬ (letter.isAlphanum ∨ letter = '_')) :
    letter ∉ name.toList :=
  fun member => other (word letter member)

theorem IsWord.plain (word : IsWord name) : Plain name := word.not_mem (by decide)

/-- The id under which functions and foreign functions are called. -/
def MDecl.callableId : MDecl → Option DeclId
  | .function id _ _ _ _ => some id
  | .foreignFunction id _ _ _ _ => some id
  | _ => none

def MDecl.sourceName : MDecl → Option Identifier
  | .function _ name _ _ _ | .constant _ name _ _ | .foreignFunction _ name _ _ _ => some name
  | _ => none

/-- What the front end says of the names of declarations. -/
structure WellNamed (program : Program) : Prop where
  /-- An id stands for one declaration of the program. -/
  identify : ∀ first ∈ program.decls, ∀ second ∈ program.decls, ∀ id, first.callableId = some id →
    second.callableId = some id → first = second
  words : ∀ decl ∈ program.decls, ∀ name, decl.sourceName = some name → IsWord name.string
  /-- Symbols of the host have no mark of the linker. -/
  symbols : ∀ id name params rt symbol,
    MDecl.foreignFunction id name params rt symbol ∈ program.registered → Plain symbol

theorem eq_of_repr_eq {first second : Nat} (same : first.repr = second.repr) : first = second := by
  have digits := congrArg (fun text => Nat.ofDigitChars 10 text.toList 0) same
  rwa [Nat.toList_repr, Nat.toList_repr, Nat.ofDigitChars_toDigits (by decide) (by decide),
    Nat.ofDigitChars_toDigits (by decide) (by decide)] at digits

theorem plain_showMonoId (id : MonoId) : Plain (showMonoId id) := by
  have shown : (showMonoId id).toList =
      "(Id.MonoId ".toList ++ Nat.toDigits 10 id.index ++ ")".toList := by
    rw [← Nat.toList_repr, ← toList_append, ← toList_append]
    rfl
  rw [Plain, shown, mem_append, mem_append]
  rintro ((inFirst | inDigits) | inLast)
  · revert inFirst
    decide
  · have digit := Nat.isDigit_of_mem_toDigits (by decide) (by decide) inDigits
    revert digit
    decide
  · revert inLast
    decide

theorem showMonoId_injective (same : showMonoId first = showMonoId second) : first = second := by
  have index : "(Id.MonoId " ++ first.index.repr ++ ")" =
      "(Id.MonoId " ++ second.index.repr ++ ")" := same
  rw [String.append_left_inj, String.append_right_inj] at index
  cases first
  cases second
  exact congrArg _ (eq_of_repr_eq index)

theorem eq_of_suffix {mark separator : Char} {text word lead : List Char}
    (suffix : (mark :: text) <:+ lead ++ separator :: word) (markNotIn : mark ∉ word)
    (separatorNotIn : separator ∉ text) : text = word := by
  rcases suffix_or_suffix_of_suffix suffix (suffix_append lead (separator :: word)) with
    inner | outer
  · rcases suffix_cons_iff.mp inner with equal | within
    · exact (cons_eq_cons.mp equal).2
    · exact absurd (within.subset mem_cons_self) markNotIn
  · rcases suffix_cons_iff.mp outer with equal | within
    · exact (cons_eq_cons.mp equal).2.symm
    · exact absurd (within.subset mem_cons_self) separatorNotIn

theorem toList_qidentDebugName (name : QIdent) :
    (∃ lead, (qidentDebugName name).toList = lead ++ ':' :: name.original.string.toList) ∨
      ∃ lead, (qidentDebugName name).toList = lead ++ [')'] := by
  rw [qidentDebugName]
  split
  · refine .inl ⟨name.source.string.toList ++ [':'], ?_⟩
    simp [toList_append]
  · refine .inr ⟨(name.source.string ++ "::" ++ name.original.string ++ "(local=" ++
      name.localName.string).toList, ?_⟩
    rw [toList_append]
    rfl

theorem eq_exitSuccess_of_isExitSuccess {name : QIdent} (word : IsWord name.original.string)
    (exits : isExitSuccess name) : name.original.string = "ExitSuccess" := by
  have ends : (∃ mark, (mark = ':' ∨ mark = '.') ∧
      (mark :: "ExitSuccess".toList) <:+ (qidentDebugName name).toList) ∨
      qidentDebugName name = "ExitSuccess" := by
    simp only [isExitSuccess, endsWith, Bool.or_eq_true, isSuffixOf_iff_suffix,
      decide_eq_true_eq] at exits
    rcases exits with (colon | dot) | whole
    · exact .inl ⟨':', .inl rfl, colon⟩
    · exact .inl ⟨'.', .inr rfl, dot⟩
    · exact .inr whole
  rcases toList_qidentDebugName name with ⟨lead, shown⟩ | ⟨lead, shown⟩
  · rcases ends with ⟨mark, isMark, suffix⟩ | whole
    · rw [shown] at suffix
      have markNotIn : mark ∉ name.original.string.toList := by
        rcases isMark with rfl | rfl <;> exact word.not_mem (by decide)
      exact (String.toList_injective (eq_of_suffix suffix markNotIn (by decide))).symm
    · have colon : ':' ∈ "ExitSuccess".toList := by
        rw [← whole, shown]
        simp
      exact absurd colon (by decide)
  · have last : (qidentDebugName name).toList.getLast? = some ')' := by
      rw [shown, getLast?_concat]
    rcases ends with ⟨mark, -, start, suffix⟩ | whole
    · rw [← suffix] at last
      simp at last
    · rw [whole] at last
      exact absurd last (by decide)

/-! ## Calls that lead to their declaration -/

/-- The condition, on the names of the program, that a call leads to its
declaration. -/
def LeadsTo (program : Program) (route : Route) : MExpr → Destination → Prop
  -- the name is not taken for the exit, the tables have no other symbol for it, and
  -- the function is the first choice for its name
  | .concreteFuncall id name _ _, .code emitted =>
    ¬ isExitSuccess name ∧
      (∀ symbol, program.foreignSymbol id name.original.string = some symbol →
        symbol = name.original.string) ∧
      ((program.candidates route).find? fun entry => entry.2 = name.original.string) =
        some (emitted, name.original.string)
  -- the tables have the symbol, or it is the name, and no code has its name
  | .concreteFuncall id name _ _, .symbol symbol =>
    (if isExitSuccess name then "au_exit"
      else (program.foreignSymbol id name.original.string).getD name.original.string) = symbol ∧
      ∀ entry ∈ program.candidates route, entry.2 ≠ symbol
  -- a module that is lowered has the monomorph
  | .genericFuncall id _ _, _ =>
    (.monomorph id, "monomorph_" ++ showMonoId id) ∈ program.candidates route
  | .genericMethodCall _ id _ _, _ =>
    (.method id, "method_" ++ showMonoId id) ∈ program.candidates route
  -- no code is emitted for the methods of an instance
  | _, _ => False

section Calls

variable {program : Program} {route : Route} {floatOfString : String → Option OcamlFloat}
  {name symbol : String} {decl : MDecl} {id : DeclId} {params : List MValueParameter}
  {rt callRt : MonoTy} {body : MStmt} {args : List MExpr}

theorem destination_eq_code_iff (plain : Plain name) :
    program.destination route name = .code emitted ↔
      ((program.candidates route).find? fun entry => entry.2 = name) = some (emitted, name) := by
  rw [program.destination_eq route plain]
  cases found : (program.candidates route).find? fun entry => entry.2 = name with
  | none => simp
  | some entry =>
    have same : entry.2 = name := by simpa using find?_some found
    obtain ⟨_, _⟩ := entry
    simp_all

theorem destination_eq_symbol_iff (plain : Plain name) :
    program.destination route name = .symbol symbol ↔
      name = symbol ∧ ∀ entry ∈ program.candidates route, entry.2 ≠ symbol := by
  rw [program.destination_eq route plain]
  cases found : (program.candidates route).find? fun entry => entry.2 = name with
  | none =>
    have absent := find?_eq_none.mp found
    simp only [Destination.symbol.injEq]
    constructor
    · rintro rfl
      exact ⟨rfl, fun entry member => by simpa using absent entry member⟩
    · exact And.left
  | some entry =>
    have same : entry.2 = name := by simpa using find?_some found
    refine iff_of_false (by simp) ?_
    rintro ⟨rfl, others⟩
    exact others entry (mem_of_find?_eq_some found) same

/-- A name that stands for one piece of code only leads there if a lowered module
has the code. -/
theorem destination_eq_code_iff_mem (plain : Plain name)
    (unique : ∀ other ∈ program.decls, ∀ code, other.emitted = some (code, name) →
      code = emitted) :
    program.destination route name = .code emitted ↔
      (emitted, name) ∈ program.candidates route := by
  rw [destination_eq_code_iff plain]
  refine ⟨mem_of_find?_eq_some, fun member => ?_⟩
  have present : ((program.candidates route).find? fun entry => entry.2 = name).isSome := by
    rw [find?_isSome]
    exact ⟨_, member, by simp⟩
  obtain ⟨⟨code, other⟩, found⟩ := isSome_iff_exists.mp present
  obtain rfl : other = name := by simpa using find?_some found
  obtain ⟨declared, inDecls, emits⟩ := Program.decl_of_candidate (mem_of_find?_eq_some found)
  rw [found, unique declared inDecls code emits]

theorem IsWord.ne_append_showMonoId (word : IsWord name) (id : MonoId) :
    name ≠ start ++ showMonoId id := by
  rintro rfl
  refine word.not_mem (by decide : ¬ ('('.isAlphanum ∨ '(' = '_')) ?_
  rw [toList_append, mem_append]
  have shown : showMonoId id = "(Id.MonoId " ++ (id.index.repr ++ ")") := by
    rw [← String.append_assoc]
    rfl
  rw [shown, toList_append, mem_append]
  exact .inr (.inl (by decide))

theorem plain_append (firstPlain : Plain first) (secondPlain : Plain second) :
    Plain (first ++ second) := by
  rw [Plain, toList_append, mem_append, not_or]
  exact ⟨firstPlain, secondPlain⟩

theorem reached_concreteFuncall (id : DeclId) (name : QIdent) (args : List MExpr) (rt : MonoTy) :
    program.reached floatOfString route (.concreteFuncall id name args rt) =
      some (program.destination route (if isExitSuccess name then "au_exit"
        else (program.foreignSymbol id name.original.string).getD name.original.string)) := by
  obtain ⟨byId, byName⟩ := lookup_registerAll (initial floatOfString) program.registered id
    name.original.string
  rw [← program.tables_eq] at byId byName
  simp only [initial, lookup_nil, or_none] at byId byName
  rw [Program.reached, convertExpr]
  by_cases exits : isExitSuccess name
  · simp only [exits, if_true]
  · simp only [exits, if_false, calleeName, byId, byName, Program.foreignSymbol, Bool.false_eq_true]
    cases program.registered.reverse.findSome? (MDecl.foreignWithId id) with
    | some => rfl
    | none =>
      cases program.registered.reverse.findSome? (MDecl.foreignNamed name.original.string) <;> rfl

theorem plain_foreignSymbol (named : WellNamed program)
    (found : program.foreignSymbol id name = some symbol) : Plain symbol := by
  have ofDecl : ∀ decl ∈ program.registered.reverse,
      decl.foreignWithId id = some symbol ∨ decl.foreignNamed name = some symbol →
        Plain symbol := by
    intro decl member isSymbol
    cases decl with
    | foreignFunction =>
      simp only [MDecl.foreignWithId, MDecl.foreignNamed, ite_none_right_eq_some,
        Option.some.injEq] at isSymbol
      obtain ⟨-, rfl⟩ | ⟨-, rfl⟩ := isSymbol <;>
        exact named.symbols _ _ _ _ _ (mem_reverse.mp member)
    | _ => rcases isSymbol with isSymbol | isSymbol <;> cases isSymbol
  rcases or_eq_some_iff.mp found with byId | ⟨-, byName⟩
  · obtain ⟨decl, member, isSymbol⟩ := exists_of_findSome?_eq_some byId
    exact ofDecl decl member (.inl isSymbol)
  · obtain ⟨decl, member, isSymbol⟩ := exists_of_findSome?_eq_some byName
    exact ofDecl decl member (.inr isSymbol)

theorem name_of_destination {name : Identifier} (named : WellNamed program)
    (declared : .function id name params rt body ∈ program.decls) (plain : Plain symbol)
    (leads : program.destination route symbol = .code (.function id)) : symbol = name.string := by
  rw [destination_eq_code_iff plain] at leads
  obtain ⟨decl, member, emits⟩ := Program.decl_of_candidate (mem_of_find?_eq_some leads)
  have hasId : decl.callableId = some id := by
    cases decl <;> simp_all [MDecl.emitted, MDecl.callableId]
  obtain rfl := named.identify decl member _ declared id hasId rfl
  cases emits
  rfl

theorem function_call_leads_iff (named : WellNamed program) {name : QIdent}
    (declared : .function id name.original params rt body ∈ program.decls) :
    program.reached floatOfString route (.concreteFuncall id name args callRt) =
        some (.code (.function id)) ↔
      LeadsTo program route (.concreteFuncall id name args callRt) (.code (.function id)) := by
  have word : IsWord name.original.string := named.words _ declared _ rfl
  rw [reached_concreteFuncall, LeadsTo, Option.some.injEq]
  by_cases exits : isExitSuccess name
  · simp only [exits, if_true, not_true_eq_false, false_and, iff_false]
    intro leads
    have same := name_of_destination named declared (by decide) leads
    rw [eq_exitSuccess_of_isExitSuccess word exits] at same
    exact absurd same (by decide)
  · simp only [exits, Bool.false_eq_true, if_false, not_false_eq_true, true_and]
    cases foreign : program.foreignSymbol id name.original.string with
    | none =>
      simp only [getD_none, reduceCtorEq, false_implies, implies_true, true_and]
      exact destination_eq_code_iff word.plain
    | some =>
      simp only [getD_some, Option.some.injEq, forall_eq']
      constructor
      · intro leads
        have same := name_of_destination named declared (plain_foreignSymbol named foreign) leads
        rw [same] at leads
        exact ⟨same, (destination_eq_code_iff word.plain).mp leads⟩
      · rintro ⟨rfl, found⟩
        exact (destination_eq_code_iff word.plain).mpr found

theorem foreign_call_leads_iff (named : WellNamed program) {name : QIdent}
    (declared : .foreignFunction id name.original params rt symbol ∈ program.decls) :
    program.reached floatOfString route (.concreteFuncall id name args callRt) =
        some (.symbol symbol) ↔
      LeadsTo program route (.concreteFuncall id name args callRt) (.symbol symbol) := by
  have word : IsWord name.original.string := named.words _ declared _ rfl
  have plain : Plain (if isExitSuccess name then "au_exit"
      else (program.foreignSymbol id name.original.string).getD name.original.string) := by
    split
    · decide
    · cases foreign : program.foreignSymbol id name.original.string with
      | none => exact word.plain
      | some => exact plain_foreignSymbol named foreign
  rw [reached_concreteFuncall, LeadsTo, Option.some.injEq, destination_eq_symbol_iff plain]

theorem monomorph_of_emitted (named : WellNamed program) (member : decl ∈ program.decls)
    {id : MonoId} (emits : decl.emitted = some (code, start ++ showMonoId id)) :
    (∃ other, code = .monomorph other ∧ "monomorph_" ++ showMonoId other = start ++ showMonoId id) ∨
      ∃ other, code = .method other ∧ "method_" ++ showMonoId other = start ++ showMonoId id := by
  cases decl with
  | function | constant =>
    obtain ⟨-, same⟩ := mk.inj (Option.some.inj emits)
    exact absurd same ((named.words _ member _ rfl).ne_append_showMonoId id)
  | functionMonomorph other =>
    obtain ⟨rfl, same⟩ := mk.inj (Option.some.inj emits)
    exact .inl ⟨other, rfl, same⟩
  | methodMonomorph other =>
    obtain ⟨rfl, same⟩ := mk.inj (Option.some.inj emits)
    exact .inr ⟨other, rfl, same⟩
  | _ => cases emits

theorem monomorph_ne_method (first second : String) :
    "monomorph_" ++ first ≠ "method_" ++ second := by
  intro same
  have third := congrArg (fun text => text.toList[2]?) same
  simp [toList_append] at third

theorem monomorph_call_leads_iff (named : WellNamed program) (id : MonoId) :
    program.destination route ("monomorph_" ++ showMonoId id) = .code (.monomorph id) ↔
      (.monomorph id, "monomorph_" ++ showMonoId id) ∈ program.candidates route := by
  apply destination_eq_code_iff_mem (plain_append (by decide) (plain_showMonoId id))
  intro other inDecls code emits
  rcases monomorph_of_emitted named inDecls emits with ⟨otherId, rfl, same⟩ | ⟨otherId, -, same⟩
  · rw [showMonoId_injective ((String.append_right_inj _).mp same)]
  · exact absurd same.symm (monomorph_ne_method _ _)

theorem methodMonomorph_call_leads_iff (named : WellNamed program) (id : MonoId) :
    program.destination route ("method_" ++ showMonoId id) = .code (.method id) ↔
      (.method id, "method_" ++ showMonoId id) ∈ program.candidates route := by
  apply destination_eq_code_iff_mem (plain_append (by decide) (plain_showMonoId id))
  intro other inDecls code emits
  rcases monomorph_of_emitted named inDecls emits with ⟨otherId, -, same⟩ | ⟨otherId, rfl, same⟩
  · exact absurd same (monomorph_ne_method _ _)
  · rw [showMonoId_injective ((String.append_right_inj _).mp same)]

end Calls

/-- A built-in function, a library with a function and a foreign function, and a
main module. -/
def smallProgram : Program where
  builtin := [⟨⟨"Austral.Memory"⟩, [.function ⟨0⟩ ⟨"allocate"⟩ [] .unit .skip]⟩]
  before := [⟨⟨"Lib"⟩, [.function ⟨1⟩ ⟨"step"⟩ [] .unit .skip,
    .foreignFunction ⟨2⟩ ⟨"printInt"⟩ [] .unit "au_print_int"]⟩]
  current := ⟨⟨"Main"⟩, [.function ⟨3⟩ ⟨"run"⟩ [] .unit .skip]⟩
  after := []
  stale := []

def stepCall : MExpr := .concreteFuncall ⟨1⟩ ⟨⟨"Lib"⟩, ⟨"step"⟩, ⟨"step"⟩⟩ [] .unit

theorem wellNamed_smallProgram : WellNamed smallProgram where
  identify := by
    simp [smallProgram, Program.decls, Program.lowered, declsOf, MDecl.callableId]
  words := by
    simp [smallProgram, Program.decls, Program.lowered, declsOf, MDecl.sourceName, IsWord]
  symbols := by
    intro id name params rt symbol member
    have isPrint : symbol = "au_print_int" := by
      simp [smallProgram, Program.registered, declsOf] at member
      exact member.2.2.2.2
    rw [isPrint]
    decide

def twoRuns : Program where
  builtin := []
  before := [⟨⟨"First"⟩, [.function ⟨1⟩ ⟨"run"⟩ [] .unit .skip]⟩,
    ⟨⟨"Second"⟩, [.function ⟨2⟩ ⟨"run"⟩ [] .unit .skip]⟩]
  current := ⟨⟨"Main"⟩, []⟩
  after := []
  stale := []

def runCall (id : Nat) (source : String) : MExpr :=
  .concreteFuncall ⟨id⟩ ⟨⟨source⟩, ⟨"run"⟩, ⟨"run"⟩⟩ [] .unit

/-- The symbols of a sequence of claims on one engine. -/
def claimAll (names : List String) : List String :=
  names.foldl (fun claimed name => claimed ++ [Jit.claimExportSymbol claimed name]) []

/-- The call ends with a symbol: the name if it is free, otherwise the first suffix from 2
on that is. -/
def Claims (claimed : List String) (name symbol : String) : Prop :=
  if name ∈ claimed then
    ∃ number ≥ 2, symbol = s!"{name}#{number}" ∧ symbol ∉ claimed ∧
      ∀ taken ≥ 2, taken < number → s!"{name}#{taken}" ∈ claimed
  else symbol = name

theorem suffix_injective (name : String) :
    Function.Injective fun number : Nat => s!"{name}#{number}" := by
  intro number other same
  simp only [String.append_right_inj] at same
  exact eq_of_repr_eq same

theorem freeSuffix_eq (claimed : List String) (name : String) (fuel number : Nat) :
    ∃ found ≥ number, Jit.freeSuffix claimed name fuel number = s!"{name}#{found}" ∧
      (s!"{name}#{found}" ∈ claimed → found = number + fuel) ∧
      ∀ taken ≥ number, taken < found → s!"{name}#{taken}" ∈ claimed := by
  induction fuel generalizing number with
  | zero => exact ⟨number, le_rfl, rfl, fun _ => rfl, fun taken _ _ => by omega⟩
  | succ fuel ih =>
    rw [Jit.freeSuffix]
    split
    · rename_i isTaken
      obtain ⟨found, later, isFound, last, before⟩ := ih (number + 1)
      refine ⟨found, by omega, isFound, fun again => by have := last again; omega, ?_⟩
      intro taken fromNumber below
      rcases Nat.eq_or_lt_of_le fromNumber with rfl | above
      · exact isTaken
      · exact before taken above below
    · rename_i isFree
      exact ⟨number, le_rfl, rfl, fun isTaken => absurd isTaken isFree, fun taken _ _ => by omega⟩

theorem claims_claimExportSymbol (claimed : List String) (name : String) :
    Claims claimed name (Jit.claimExportSymbol claimed name) := by
  rw [Claims, Jit.claimExportSymbol]
  split
  · obtain ⟨found, from2, isFound, last, before⟩ := freeSuffix_eq claimed name claimed.length 2
    refine ⟨found, from2, isFound, ?_, before⟩
    rw [isFound]
    intro isTaken
    -- One more suffix than there are symbols cannot all be taken.
    have taken : (range' 2 (claimed.length + 1)).map (fun number => s!"{name}#{number}") ⊆
        claimed := by
      intro symbol member
      obtain ⟨number, inRange, rfl⟩ := mem_map.mp member
      obtain ⟨from2, below⟩ := mem_range'_1.mp inRange
      rcases Nat.lt_or_ge number found with earlier | later
      · exact before number from2 earlier
      · rwa [show number = found by have := last isTaken; omega]
    have distinct := (nodup_range' (s := 2) (n := claimed.length + 1)).map (suffix_injective name)
    have bound := (subperm_of_subset distinct taken).length_le
    rw [length_map, length_range'] at bound
    omega
  · rfl

theorem Claims.notMem (claims : Claims claimed name symbol) : symbol ∉ claimed := by
  rw [Claims] at claims
  split at claims
  · obtain ⟨_, -, -, isFree, -⟩ := claims
    exact isFree
  · rename_i isFree
    rwa [claims]

/-- In every sequence of claims each call ends, with a symbol that no other one has got. -/
theorem claimAll_distinct (names : List String) (name : String) : (claimAll names).Nodup ∧
      ∃ symbol, claimAll (names ++ [name]) = claimAll names ++ [symbol] ∧
        Claims (claimAll names) name symbol := by
  have appends (names : List String) (name : String) : claimAll (names ++ [name]) =
      claimAll names ++ [Jit.claimExportSymbol (claimAll names) name] := by
    rw [claimAll, foldl_append]
    rfl
  refine ⟨?_, _, appends names name, claims_claimExportSymbol _ name⟩
  induction names using List.reverseRecOn with
  | nil => exact nodup_nil
  | append_singleton names name ih =>
    rw [appends, nodup_append_comm]
    exact nodup_cons.mpr ⟨(claims_claimExportSymbol _ name).notMem, ih⟩

end AustralVM
