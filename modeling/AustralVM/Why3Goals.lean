import AustralVM.LiquidConstraints
import Mathlib.Data.List.DropRight

/-!
# The goals in the prover's file

`LiquidConstraints.to_mlw` prints the constraints of a module, and `LiquidWhy3.goals_in`
reads the names of the goals back from the file.
-/

namespace AustralVM.Liquid.Why3

open Constraints List

/-- How the parts of the file are spelled that `goals_in` does not look at. -/
structure Spelling where
  why3OfFormula : Formula → String
  emitContract : String → String
  emitFormula : String → String
  substituteResult : List String → String → String → String
  sortUniq : List (String × Nat) → List (String × Nat)

structure Goal where
  name : String
  rule : String
  binder : String
  assumes : Option String
  body : String
  syms : List (String × Nat)

structure ConstraintSet where
  moduleName : String
  contracts : List ContractEntry
  goals : List Goal
  templates : List Qualifier
  theory : List TheoryFn

variable (spelling : Spelling)

def contractText (entry : ContractEntry) : String :=
  "  (* " ++ entry.name ++ " : " ++ entry.kind.toString ++ " *)\n" ++
    match entry.kind with
    | .measure | .fold => ""
    | _ => "  (*   " ++ entry.source ++ " *)\n"

def typedNames (names : List String) : String := ", ".intercalate (names.map (· ++ ": int"))

def templateText (template : Qualifier) : String :=
  "  (* qualifier inferred at a program point (L6) *)\n" ++
    match template.args with
    | [] => "  axiom " ++ template.name ++ "\n"
    | args => "  predicate " ++ template.name ++ " (" ++ typedNames args ++ ") = " ++
        spelling.emitContract (spelling.why3OfFormula template.body) ++ "\n"

def theoryText (fn : TheoryFn) : String :=
  let post := spelling.substituteResult fn.params fn.name (spelling.emitFormula fn.post)
  let quantified := typedNames fn.params
  let binders := if quantified = "" then "" else "forall " ++ quantified ++ ". "
  "  function " ++ fn.name ++ String.join (fn.params.map fun param => " (" ++ param ++ ": int)") ++
    " : int\n  axiom " ++ fn.name ++ "_post: " ++ binders ++
    (match fn.pre with
    | some pre => "(" ++ spelling.emitFormula pre ++ ") -> "
    | none => "") ++ post ++ "\n"

def symbolText (symbol : String × Nat) : String :=
  if symbol.2 = 0 then "  function " ++ symbol.1 ++ " : int\n"
  else "  function " ++ symbol.1 ++ " (" ++
    " ".intercalate ((range symbol.2).map fun index => "x" ++ toString index) ++ ": int) : int\n"

def goalText (goal : Goal) : String :=
  "\n  (* " ++ goal.name ++ " — " ++ goal.rule ++ " *)\n  goal " ++ goal.name ++ ": " ++
    goal.binder ++ (match goal.assumes with
    | none => ""
    | some assumed => "(" ++ spelling.emitFormula assumed ++ ") -> ") ++ goal.body ++ "\n"

def toMlw (set : ConstraintSet) : String :=
  let syms := (spelling.sortUniq (set.goals.flatMap Goal.syms)).filter fun symbol =>
    symbol.1 ∉ set.theory.map TheoryFn.name
  "(* Generated by LiquidConstraints (PLAN_liquid_types.md L4).\n   Source module: " ++
    set.moduleName ++ "\n   Normative: docs/LIQUID.md §5.1 (judgments), §8.1 (one file per\n" ++
    "   module), §8.2 (discharge).\n" ++
    "   Do not edit by hand: this file is pinned as a golden under\n   lib/liquid/golden/. *)\n\nmodule " ++ set.moduleName ++
    "\n  use int.Int\n  use bool.Bool\n\n  (* --- contracts (docs/LIQUID.md §5.6) --- *)\n" ++
    String.join (set.contracts.map contractText) ++ "\n" ++
    String.join (set.templates.map (templateText spelling)) ++ "\n" ++
    (if set.theory.isEmpty then "" else
      "\n  (* --- theory: total-fragment functions (L10 Cycle A) --- *)\n" ++
        String.join (set.theory.map (theoryText spelling)) ++ "\n") ++
    (if syms.isEmpty then "" else
      "\n  (* --- uninterpreted symbols (docs/LIQUID.md §5.6) --- *)\n" ++
        String.join (syms.map symbolText) ++ "\n") ++
    "  (* --- verification conditions --- *)\n" ++
    String.join (set.goals.map (goalText spelling)) ++ "\nend\n"

def isSpace (char : Char) : Bool :=
  char = ' ' ∨ char = '\x0c' ∨ char = '\n' ∨ char = '\r' ∨ char = '\t'

/-- `String.trim` -/
def trim (text : List Char) : List Char := (text.dropWhile isSpace).rdropWhile isSpace

def goalOfLine (line : List Char) : Option String :=
  let line := trim line
  if line.length > 6 ∧ line.take 6 = "  goal".toList then
    let rest := trim (line.drop 6)
    if rest.getLast? = some ':' then some (String.ofList rest.dropLast) else none
  else none

def goalsIn (file : String) : List String := (file.toList.splitOn '\n').filterMap goalOfLine

/-- A line is trimmed before it is compared with a text that starts with a blank. -/
theorem goalOfLine_eq_none (line : List Char) : goalOfLine line = none := by
  rw [goalOfLine]
  dsimp only
  rw [if_neg]
  rintro ⟨-, isGoal⟩
  have shorter := rdropWhile_prefix isSpace (line.dropWhile isSpace)
  obtain ⟨rest, same⟩ := (isGoal ▸ take_prefix 6 (trim line)).trans shorter
  have first := head?_dropWhile_not isSpace line
  rw [← same] at first
  change isSpace ' ' = false at first
  revert first
  decide

theorem goalsIn_eq_nil (file : String) : goalsIn file = [] :=
  filterMap_eq_nil_iff.mpr fun line _ => goalOfLine_eq_none line

/-- The names that are read back are those of the goals exactly if there is no goal. -/
theorem goalsIn_toMlw_iff (set : ConstraintSet) :
    goalsIn (toMlw spelling set) = set.goals.map Goal.name ↔ set.goals = [] := by
  rw [goalsIn_eq_nil, eq_comm, map_eq_nil_iff]

theorem goalsIn_oneGoal :
    let spelling : Spelling := ⟨fun _ => "true", id, id, fun _ _ text => text, id⟩
    let goal : Goal := ⟨"g_0", "§5.10 RETURN", "forall n: int. ", none, "n = n", []⟩
    goalsIn (toMlw spelling ⟨"Example", [], [goal], [], []⟩) ≠ [goal.name] := by
  intro spelling goal
  rw [goalsIn_eq_nil]
  exact (cons_ne_nil _ _).symm

end AustralVM.Liquid.Why3
