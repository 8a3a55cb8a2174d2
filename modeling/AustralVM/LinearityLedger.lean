import AustralVM.TypedAst

/-!
# The linearity ledger

The rows the linearity checker leaves behind.  A row keeps its type as a type and its
variable as an identifier; the source prints both.
-/

namespace AustralVM

inductive LedgerEvent
  | acquire
  | consume
  | reacquire
  | borrowRead
  | borrowWrite
  | reborrow
  | unborrow
  | drop
  deriving DecidableEq, Repr

/-- A branch path: the branches a row stands under, with the arm taken,
innermost first. -/
abbrev BranchPath := List (Nat × Nat)

structure LedgerRow where
  var : Identifier
  ty : Ty
  depth : Nat
  event : LedgerEvent
  path : BranchPath
  deriving Repr

/-- The rows of one function, in the order they were recorded. -/
structure LedgerFunction where
  name : String
  kind : String
  rows : List LedgerRow
  deriving Repr

/-! ## Recording -/

/-- The recording state.  The rows of the current function stand latest first,
and so do the completed functions. -/
structure Ledger where
  enabled : Bool
  path : BranchPath
  branchIds : Nat
  current : Option LedgerFunction
  completed : List LedgerFunction
  deriving Repr

namespace Ledger

def empty (enabled : Bool) : Ledger := ⟨enabled, [], 0, none, []⟩

/-- The function with its rows in the order they were recorded. -/
def inOrder (function : LedgerFunction) : LedgerFunction :=
  { function with rows := function.rows.reverse }

/-- Only the saving of an unfinished function depends on the ledger being
enabled. -/
def beginFunction (ledger : Ledger) (name kind : String) : Ledger :=
  { ledger with
    path := []
    current := some ⟨name, kind, []⟩
    completed :=
      if ledger.enabled then
        match ledger.current with
        | some function => inOrder function :: ledger.completed
        | none => ledger.completed
      else
        ledger.completed }

def endFunction (ledger : Ledger) : Ledger :=
  if ledger.enabled then
    match ledger.current with
    | some function =>
      { ledger with current := none, completed := inOrder function :: ledger.completed }
    | none => ledger
  else
    ledger

def nextBranch (ledger : Ledger) : Nat × Ledger :=
  (ledger.branchIds, { ledger with branchIds := ledger.branchIds + 1 })

def enterArm (ledger : Ledger) (id arm : Nat) : Ledger :=
  if ledger.enabled then { ledger with path := (id, arm) :: ledger.path } else ledger

def leaveArm (ledger : Ledger) (saved : BranchPath) : Ledger :=
  if ledger.enabled then { ledger with path := saved } else ledger

def record (ledger : Ledger) (var : Identifier) (ty : Ty) (depth : Nat)
    (event : LedgerEvent) : Ledger :=
  if ledger.enabled then
    match ledger.current with
    | some function =>
      { ledger with
        current := some { function with
          rows := ⟨var, ty, depth, event, ledger.path⟩ :: function.rows } }
    | none => ledger
  else
    ledger

end Ledger

end AustralVM
