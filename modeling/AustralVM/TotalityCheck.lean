import AustralVM.GraphCycles
import AustralVM.LiquidParse
import AustralVM.TypedAst

/-!
# The totality gate

A function with a contract must stay inside the total subset: no recursion, no
loops, no foreign calls, and no assignment to a parameter its contracts mention.
This module has the scans of `TotalityCheck`, the check of one function, and the
gate of `LiquidCheck` that runs it over a module.
-/

namespace AustralVM.Liquid

open Relation

/-! ## The scans -/

mutual

/-- The calls of an expression, in front of those already found. -/
def callsInExpr (acc : List DeclId) : TExpr → List DeclId
  | .funcall id _ args _ _ => callsInExprs (id :: acc) args
  | .funVar id _ _ => id :: acc
  | .cast expr _ | .negation expr | .slotAccessor expr _ _ | .pointerSlotAccessor expr _ _ =>
    callsInExpr acc expr
  | .comparison _ lhs rhs | .conjunction lhs rhs | .disjunction lhs rhs =>
    callsInExpr (callsInExpr acc lhs) rhs
  | .ifExpression condition consequent alternative =>
    callsInExpr (callsInExpr (callsInExpr acc condition) consequent) alternative
  | .recordConstructor _ args | .unionConstructor _ _ args => callsInFields acc args
  | _ => acc

def callsInExprs (acc : List DeclId) : List TExpr → List DeclId
  | [] => acc
  | expr :: exprs => callsInExprs (callsInExpr acc expr) exprs

def callsInFields (acc : List DeclId) : List (Identifier × TExpr) → List DeclId
  | [] => acc
  | (_, expr) :: fields => callsInFields (callsInExpr acc expr) fields

end

mutual

/-- The calls of a statement.  Of a loop over numbers only the final bound is
read. -/
def callsInStmt (acc : List DeclId) : TStmt → List DeclId
  | .skip => acc
  | .letStmt _ _ _ body => callsInStmt acc body
  | .letTmp _ _ value | .assignTmp _ value | .assignVar _ value | .initialAssign _ value
  | .discarding value | .returnStmt value => callsInExpr acc value
  | .destructure _ _ value body => callsInStmt (callsInExpr acc value) body
  | .assign lvalue value => callsInExpr (callsInExpr acc lvalue) value
  | .ifStmt condition consequent alternative =>
    callsInStmt (callsInStmt (callsInExpr acc condition) consequent) alternative
  | .caseStmt scrutinee whens _ => callsInWhens (callsInExpr acc scrutinee) whens
  | .whileStmt condition body => callsInStmt (callsInExpr acc condition) body
  | .forStmt _ _ final body => callsInStmt (callsInExpr acc final) body
  | .borrow _ _ _ _ _ body _ => callsInStmt acc body
  | .block first second => callsInStmt (callsInStmt acc first) second

def callsInWhens (acc : List DeclId) : List (TypedWhen TStmt) → List DeclId
  | [] => acc
  | ⟨_, _, body⟩ :: whens => callsInWhens (callsInStmt acc body) whens

end

mutual

def loopsInStmt : TStmt → Bool
  | .whileStmt _ _ | .forStmt _ _ _ _ => true
  | .letStmt _ _ _ body | .destructure _ _ _ body | .borrow _ _ _ _ _ body _ => loopsInStmt body
  | .ifStmt _ consequent alternative => loopsInStmt consequent || loopsInStmt alternative
  | .caseStmt _ whens _ => loopsInWhens whens
  | .block first second => loopsInStmt first || loopsInStmt second
  | _ => false

def loopsInWhens : List (TypedWhen TStmt) → Bool
  | [] => false
  | ⟨_, _, body⟩ :: whens => loopsInStmt body || loopsInWhens whens

end

/-- The variable that an assignment target is a part of. -/
def targetRoot : TExpr → Option String
  | .paramVar name _ | .localVar name _ | .temporary name _ => some name.string
  | .slotAccessor expr _ _ | .pointerSlotAccessor expr _ _ | .cast expr _ | .deref expr =>
    targetRoot expr
  | _ => none

section Mutated

variable (refined : List String)

def hit (acc : List String) (name : String) : List String :=
  if name ∈ refined ∧ name ∉ acc then acc ++ [name] else acc

mutual

/-- The refined names that a statement changes: those it assigns to, and those
it borrows for writing.  The source walks the expressions too, and notes nothing
there. -/
def mutatedIn (acc : List String) : TStmt → List String
  | .skip | .letTmp _ _ _ | .assignTmp _ _ | .discarding _ | .returnStmt _ => acc
  | .letStmt _ _ _ body => mutatedIn acc body
  | .initialAssign name _ | .assignVar name _ => hit refined acc name.original.string
  | .assign lvalue _ =>
    match targetRoot lvalue with
    | some name => hit refined acc name
    | none => acc
  | .destructure _ _ _ body | .whileStmt _ body | .forStmt _ _ _ body => mutatedIn acc body
  | .ifStmt _ consequent alternative => mutatedIn (mutatedIn acc consequent) alternative
  | .caseStmt _ whens _ => mutatedInWhens acc whens
  | .borrow original _ _ _ _ body mode =>
    match mode with
    | .write => mutatedIn (hit refined acc original.string) body
    | .read | .reborrow => mutatedIn acc body
  | .block first second => mutatedIn (mutatedIn acc first) second

def mutatedInWhens (acc : List String) : List (TypedWhen TStmt) → List String
  | [] => acc
  | ⟨_, _, body⟩ :: whens => mutatedInWhens (mutatedIn acc body) whens

end

def mutatedInStmt (body : TStmt) : List String := mutatedIn refined [] body

end Mutated

/-! ## The check of one function -/

/-- The tables of a module: for each function its calls and its name, and the
foreign functions.  New entries come first. -/
structure GateTables where
  graph : List (DeclId × List DeclId)
  foreign : List DeclId
  names : List (DeclId × String)

def GateTables.nameOf (tables : GateTables) (id : DeclId) : String :=
  match tables.names.lookup id with
  | some name => name
  | none => "decl#" ++ toString id.index

def checkFunction (name : String) (entry : DeclId) (body : TStmt) (tables : GateTables)
    (refined : List String) : Option String :=
  match mutatedInStmt refined body with
  | changed :: _ =>
    some ("T5 (§4.1): `" ++ name ++ "` assigns to `" ++ changed ++ "`, a parameter its " ++
      "contract refines; a refined variable is immutable, or the emitted Requires ⇒ Ensures goal " ++
      "would talk about a binding the body changed")
  | [] =>
    if loopsInStmt body then
      some ("T2 (§4.1): `" ++ name ++ "` uses `while`/`for`; the Total Austral Subset admits " ++
        "only `fold` over lists and structural `match` as iteration")
    else if (callsInStmt [] body).any (· ∈ tables.foreign) then
      some ("T4 (§4.1): `" ++ name ++ "` calls a foreign function; a refinement-level function " ++
        "must be pure — no `uk_*` symbols, no `@embed` wrappers")
    else
      match findCycle (tables.graph.lookup ·) (tables.graph.length + 1) [] [entry] entry with
      | none => none
      | some path =>
        some ("T1 (§4.1): `" ++ name ++ "` is in a call cycle, so it is not total: " ++
          " -> ".intercalate (path.map tables.nameOf))

/-! ## The gate of a module -/

/-- The parameters that the contracts of a declaration name.  A contract that
cannot be read names none. -/
def refinedParams (params : List ValueParameter) (pragmas : List Pragma) : List String :=
  let free := pragmas.flatMap fun pragma =>
    match pragma with
    | .liquid kind source =>
      match ContractKind.ofString kind with
      | none => []
      | some kind =>
        match parseContract (fun _ => false) kind source with
        | .ok ⟨_, _, some formula⟩ => freeVars formula
        | _ => []
    | _ => []
  (params.map fun param => param.name.string).filter (· ∈ free)

def isContract : Pragma → Bool
  | .liquid _ _ => true
  | _ => false

def GateTables.add (tables : GateTables) : TypedDecl → GateTables
  | .function id name _ _ _ body _ =>
    { tables with
      names := (id, name.string) :: tables.names
      graph := (id, callsInStmt [] body) :: tables.graph }
  | .foreignFunction id _ _ _ _ _ => { tables with foreign := id :: tables.foreign }
  | _ => tables

def gateTables (source : TypedModule) : GateTables := source.decls.foldl GateTables.add ⟨[], [], []⟩

/-- The check of a declaration on its own: only functions are checked. -/
def checkDecl (tables : GateTables) : TypedDecl → Option String
  | .function id name _ params _ body pragmas =>
    checkFunction name.string id body tables (refinedParams params pragmas)
  | _ => none

def isContracted : TypedDecl → Bool
  | .function _ _ _ _ _ _ pragmas => pragmas.any isContract
  | _ => false

def totalityFrom (tables : GateTables) : List TypedDecl → Option String
  | [] => none
  | decl :: rest => if isContracted decl then checkDecl tables decl else totalityFrom tables rest

/-- The reason for which the gate rejects a module. -/
def totality (source : TypedModule) : Option String :=
  totalityFrom (gateTables source) source.decls

/-! ## The contracts of a module -/

def declaredTypeNames (source : TypedModule) : List String :=
  source.decls.filterMap fun decl =>
    match decl with
    | .record _ name _ _ | .union _ name _ _ => some name.string
    | _ => none

def rejection (decl source message : String) : String :=
  "liquid contract error on " ++ decl ++ " at 0-" ++ toString source.utf8ByteSize ++ ": " ++ message

/-- The first contract of a declaration that cannot be read, or mentions a name that is
not in scope. -/
def checkContracts (isKnownType : String → Bool) (bound : List String) (name : String) :
    List Pragma → Option String
  | [] => none
  | .liquid kindName source :: rest =>
    match ContractKind.ofString kindName with
    | none => some (rejection name source ("unknown Liquid pragma kind \"" ++ kindName ++ "\""))
    | some kind =>
      match parseContract isKnownType kind source with
      | .error message => some ("on " ++ name ++ ": " ++ message)
      | .ok ⟨_, _, none⟩ => checkContracts isKnownType bound name rest
      | .ok ⟨_, _, some formula⟩ =>
        match checkWf1 formula bound with
        | [] => checkContracts isKnownType bound name rest
        | free =>
          some (rejection name source ("WF1 (§2.3): not a parameter, `result`, or a " ++
            "total-fragment constant: " ++ ", ".intercalate free))
  | _ :: rest => checkContracts isKnownType bound name rest

/-- The contracts of every function are over its own parameters and its result. -/
def checkModule (source : TypedModule) : Option String :=
  source.decls.findSome? fun decl =>
    match decl with
    | .function _ name _ params _ _ pragmas | .foreignFunction _ name params _ _ pragmas =>
      checkContracts (· ∈ declaredTypeNames source)
        ("result" :: params.map fun param => param.name.string) name.string pragmas
    | _ => none

/-! ## The functions that the gate covers -/

theorem totalityFrom_eq (tables : GateTables) (decls : List TypedDecl) :
    totalityFrom tables decls = (decls.filter isContracted).head?.bind (checkDecl tables) := by
  induction decls with
  | nil => rfl
  | cons decl _ ih =>
    rw [totalityFrom, List.filter_cons]
    cases isContracted decl with
    | true => rfl
    | false => exact ih

/-- The gate covers every function with a contract exactly if the first such
function fails it or the others pass it. -/
theorem totality_covers_every_function_iff (source : TypedModule) : (totality source = none →
      ∀ decl ∈ source.decls, isContracted decl → checkDecl (gateTables source) decl = none) ↔
    ∀ first others, source.decls.filter isContracted = first :: others →
      checkDecl (gateTables source) first = none →
      ∀ decl ∈ others, checkDecl (gateTables source) decl = none := by
  rw [totality, totalityFrom_eq]
  have members : ∀ decl, (decl ∈ source.decls ∧ isContracted decl) ↔
      decl ∈ source.decls.filter isContracted := fun decl => List.mem_filter.symm
  constructor
  · intro covers first _ contracted passes decl member
    obtain ⟨inModule, hasContract⟩ := (members decl).mpr
      (by rw [contracted]; exact List.mem_cons_of_mem first member)
    refine covers ?_ decl inModule hasContract
    rw [contracted]
    exact passes
  · intro enough accepted decl inModule hasContract
    have member := (members decl).mp ⟨inModule, hasContract⟩
    cases contracted : source.decls.filter isContracted with
    | nil =>
      rw [contracted] at member
      cases member
    | cons first others =>
      rw [contracted] at accepted member
      rcases List.mem_cons.mp member with rfl | later
      · exact accepted
      · exact enough first others contracted accepted decl later

/-- A module whose second function with a contract loops for ever is accepted. -/
theorem totality_skips_second_function :
    let contract : Pragma := .liquid "Ensures" "result == 0"
    let first : TypedDecl := .function ⟨1⟩ ⟨"zero"⟩ [] [] .unit (.returnStmt .nilConstant)
      [contract]
    let second : TypedDecl := .function ⟨2⟩ ⟨"spin"⟩ [] [] .unit
      (.whileStmt (.boolConstant true) .skip) [contract]
    let source : TypedModule := ⟨⟨"Example"⟩, [first, second]⟩
    totality source = none ∧ second ∈ source.decls ∧ isContracted second ∧
      checkDecl (gateTables source) second ≠ none := by
  refine ⟨rfl, by simp, rfl, ?_⟩
  exact Option.some_ne_none _

/-! ## The cycle that is reported -/

/-- What the check says of the calls below an entry is right: it reports a path
exactly if a cycle can be reached, and the path is a cycle. -/
def ReportsCycle (graph : List (DeclId × List DeclId)) (entry : DeclId) : Prop :=
  ((searchCycle graph entry).isSome ↔
    ∃ reached, ReflTransGen (GraphEdge (graph.lookup ·)) entry reached ∧
      TransGen (GraphEdge (graph.lookup ·)) reached reached) ∧
  ∀ path, searchCycle graph entry = some path → IsCycle (GraphEdge (graph.lookup ·)) path

theorem searchCycle_eq_some {path : List DeclId} (found : searchCycle graph entry = some path) :
    path.IsChain (GraphEdge (graph.lookup ·)) ∧ path.head? = some entry ∧
      ∃ last, path.getLast? = some last ∧ TransGen (GraphEdge (graph.lookup ·)) entry last ∧
        TransGen (GraphEdge (graph.lookup ·)) last last := by
  obtain ⟨linked, ⟨_, rfl⟩, ends⟩ :=
    walk_of_findCycle_eq_some found rfl (List.isChain_singleton entry) nofun
  exact ⟨linked, rfl, ends⟩

theorem isSome_searchCycle_iff (graph : List (DeclId × List DeclId)) (entry : DeclId) :
    (searchCycle graph entry).isSome ↔
      ∃ reached, ReflTransGen (GraphEdge (graph.lookup ·)) entry reached ∧
        TransGen (GraphEdge (graph.lookup ·)) reached reached := by
  cases found : searchCycle graph entry with
  | none =>
    apply iff_of_false Bool.false_ne_true
    rintro ⟨_, walk, cycle⟩
    exact no_cycle_of_searchCycle_eq_none found (TransGen.trans_right walk cycle) cycle
  | some =>
    obtain ⟨-, -, last, -, walk, cycle⟩ := searchCycle_eq_some found
    exact iff_of_true rfl ⟨last, walk.to_reflTransGen, cycle⟩

/-- The report is right if every function of a cycle that can be reached calls the
entry, and wrong if a cycle can be reached but the entry is on none. -/
theorem reportsCycle_bounds (graph : List (DeclId × List DeclId)) (entry : DeclId) :
    ((∀ reached, TransGen (GraphEdge (graph.lookup ·)) entry reached →
        TransGen (GraphEdge (graph.lookup ·)) reached reached →
        GraphEdge (graph.lookup ·) reached entry) → ReportsCycle graph entry) ∧
      (ReportsCycle graph entry → (searchCycle graph entry).isSome →
        TransGen (GraphEdge (graph.lookup ·)) entry entry) := by
  constructor
  · intro callsEntry
    refine ⟨isSome_searchCycle_iff graph entry, ?_⟩
    intro _ found
    obtain ⟨linked, starts, last, ends, walk, cycle⟩ := searchCycle_eq_some found
    apply isCycle_of_closed linked
    intro _ _ isFirst isLast
    cases starts.symm.trans isFirst
    cases ends.symm.trans isLast
    exact callsEntry last walk cycle
  · intro right isSome
    obtain ⟨path, found⟩ := Option.isSome_iff_exists.mp isSome
    have isEntry : entry ∈ path := List.mem_of_mem_head? (searchCycle_eq_some found).2.1
    exact (right.2 path found).together entry isEntry entry isEntry

/-- A function that calls one in a cycle is reported to be in the cycle itself. -/
theorem caller_of_cycle_is_reported :
    searchCycle [(⟨1⟩, [⟨2⟩]), (⟨2⟩, [⟨3⟩]), (⟨3⟩, [⟨2⟩])] (⟨1⟩ : DeclId) =
        some [⟨1⟩, ⟨2⟩, ⟨3⟩, ⟨2⟩] ∧ ¬ GraphEdge (([(⟨1⟩, [⟨2⟩]), (⟨2⟩, [⟨3⟩]), (⟨3⟩, [⟨2⟩])] :
        List (DeclId × List DeclId)).lookup ·) ⟨2⟩ ⟨1⟩ ∧
      ¬ ReportsCycle [(⟨1⟩, [⟨2⟩]), (⟨2⟩, [⟨3⟩]), (⟨3⟩, [⟨2⟩])] ⟨1⟩ := by
  have found : searchCycle [(⟨1⟩, [⟨2⟩]), (⟨2⟩, [⟨3⟩]), (⟨3⟩, [⟨2⟩])] (⟨1⟩ : DeclId) =
      some [⟨1⟩, ⟨2⟩, ⟨3⟩, ⟨2⟩] := by decide
  have noCall : ¬ GraphEdge (([(⟨1⟩, [⟨2⟩]), (⟨2⟩, [⟨3⟩]), (⟨3⟩, [⟨2⟩])] :
      List (DeclId × List DeclId)).lookup ·) ⟨2⟩ ⟨1⟩ := by
    rintro ⟨_, isNext, member⟩
    cases isNext
    revert member
    decide
  refine ⟨found, noCall, ?_⟩
  intro right
  exact noCall ((right.2 _ found).closed _ _ rfl rfl)

end AustralVM.Liquid
