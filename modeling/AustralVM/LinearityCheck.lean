import AustralVM.LinearityLedger

/-!
# The linearity checker

The checker of `LinearityCheck.ml`: the state table, the appearances of
variables in expressions, and the walk over statements, which also writes the
ledger.  What the source keeps in mutable globals, the ledger and the borrow
depths, is the state of the monad.
-/

namespace AustralVM

inductive VarState
  | unconsumed
  | borrowedRead
  | borrowedWrite
  | consumed
  deriving DecidableEq, Repr

def universeLinearIsh : Universe → Bool
  | .linear => true
  | .type => true
  | _ => false

def linearIsh (ty : Ty) : Comp Bool := do
  return universeLinearIsh (← typeUniverse ty)

/-! ## The state of a check -/

structure CheckState where
  ledger : Ledger
  /-- How deeply each variable is borrowed. -/
  borrowDepth : List (Identifier × Nat)
  deriving Repr

abbrev Check (α : Type) := StateT CheckState Comp α

def borrowPush (var : Identifier) : Check Unit :=
  modify fun state =>
    let depth := (state.borrowDepth.lookup var).getD 0
    { state with
      borrowDepth := (var, depth + 1) :: state.borrowDepth.filter fun entry => entry.1 ≠ var }

/-- A borrow of the variable ends; whether it was the outermost one. -/
def borrowPop (var : Identifier) : Check Bool := do
  let state ← get
  let others := state.borrowDepth.filter fun entry => entry.1 ≠ var
  match state.borrowDepth.lookup var with
  | some depth =>
    if 1 < depth then
      set { state with borrowDepth := (var, depth - 1) :: others }
      return false
    else
      set { state with borrowDepth := others }
      return true
  | none => return true

def resetBorrowDepth : Check Unit :=
  modify fun state => { state with borrowDepth := [] }

/-- Record an event of a variable, if its type is linear. -/
def ledgerNote (name : Identifier) (ty : Ty) (depth : Nat) (event : LedgerEvent) : Check Unit := do
  if ← linearIsh ty then
    modify fun state => { state with ledger := state.ledger.record name ty depth event }

def nextBranch : Check Nat := do
  let state ← get
  let (id, ledger) := state.ledger.nextBranch
  set { state with ledger := ledger }
  return id

def withArm {α : Type} (id arm : Nat) (walk : Check α) : Check α := do
  let saved := (← get).ledger.path
  modify fun state => { state with ledger := state.ledger.enterArm id arm }
  let result ← walk
  modify fun state => { state with ledger := state.ledger.leaveArm saved }
  return result

/-! ## The state table -/

structure TableRow where
  name : Identifier
  ty : Ty
  depth : Nat
  state : VarState
  deriving Repr

/-- The rows of the variables in scope, each variable once, and the variables
consumed in a loop that are still to be reassigned. -/
structure StateTbl where
  rows : List TableRow
  pending : List Identifier
  nodupNames : (rows.map TableRow.name).Nodup
  deriving Repr

def showVarState : VarState → String
  | .unconsumed => "LinearityCheck.Unconsumed"
  | .borrowedRead => "LinearityCheck.BorrowedRead"
  | .borrowedWrite => "LinearityCheck.BorrowedWrite"
  | .consumed => "LinearityCheck.Consumed"

namespace StateTbl

def emptyTbl : StateTbl := ⟨[], [], List.nodup_nil⟩

def showRow (row : TableRow) : String :=
  row.name.string ++ "\t" ++ toString row.depth ++ "\t" ++ showVarState row.state

def showStateTbl (tbl : StateTbl) : String :=
  "Entries:\n" ++ "\n".intercalate (tbl.rows.map showRow) ++ "\nPending:\n" ++
    "\n".intercalate (tbl.pending.map Identifier.string)

def findRow (rows : List TableRow) (name : Identifier) : Option TableRow :=
  rows.find? fun row => row.name = name

def getEntry (tbl : StateTbl) (name : Identifier) : Option TableRow := findRow tbl.rows name

def getEntryOrFail (tbl : StateTbl) (name : Identifier) : Comp TableRow :=
  match tbl.getEntry name with
  | some row => .ok row
  | none =>
    internalErr ("variable `" ++ name.string ++ "` not in state table. Table contents: \n\n" ++
      tbl.showStateTbl)

theorem not_mem_names_of_getEntry_eq_none {tbl : StateTbl} {name : Identifier}
    (absent : tbl.getEntry name = none) : name ∉ tbl.rows.map TableRow.name := by
  intro member
  obtain ⟨row, rowMember, rfl⟩ := List.mem_map.mp member
  simpa using List.find?_eq_none.mp absent row rowMember

def consRow (tbl : StateTbl) (row : TableRow) (absent : row.name ∉ tbl.rows.map TableRow.name) :
    StateTbl :=
  { tbl with
    rows := row :: tbl.rows
    nodupNames := List.nodup_cons.mpr ⟨absent, tbl.nodupNames⟩ }

def eraseRow (tbl : StateTbl) (name : Identifier) : StateTbl :=
  { tbl with
    rows := tbl.rows.filter fun row => row.name ≠ name
    nodupNames := tbl.nodupNames.sublist (List.filter_sublist.map _) }

theorem not_mem_names_eraseRow (tbl : StateTbl) (name : Identifier) :
    name ∉ (tbl.eraseRow name).rows.map TableRow.name := by
  simp [eraseRow]

def addEntry (tbl : StateTbl) (name : Identifier) (ty : Ty) (depth : Nat) : Check StateTbl :=
  if absent : tbl.getEntry name = none then do
    ledgerNote name ty depth .acquire
    return tbl.consRow ⟨name, ty, depth, .unconsumed⟩ (not_mem_names_of_getEntry_eq_none absent)
  else
    internalErr ("An entry exists in the state table with this name: " ++ name.string)

def noSuchVariable (tbl : StateTbl) (name : Identifier) : Comp StateTbl :=
  internalErr ("Tried to update the state of the variable `" ++ name.string ++
    "`, but no such variable exists in the state table. Table contents: \n\n" ++
    tbl.showStateTbl)

/-- Set the state of a variable; its row moves to the front. -/
def updateTbl (tbl : StateTbl) (name : Identifier) (state : VarState) : Comp StateTbl :=
  match tbl.getEntry name with
  | none => tbl.noSuchVariable name
  | some row =>
    .ok ((tbl.eraseRow name).consRow ⟨name, row.ty, row.depth, state⟩
      (not_mem_names_eraseRow tbl name))

/-- Write references and write spans end with the scope they are in. -/
def isWriteRef : Ty → Bool
  | .writeRef _ _ => true
  | .spanMut _ _ => true
  | _ => false

def removeEntry (tbl : StateTbl) (name : Identifier) : Check StateTbl :=
  match tbl.getEntry name with
  | none => tbl.noSuchVariable name
  | some row => do
    if row.state = .consumed || isWriteRef row.ty then
      if isWriteRef row.ty && row.state ≠ .consumed then
        ledgerNote name row.ty row.depth .drop
      return tbl.eraseRow name
    else if ← linearIsh row.ty then
      australRaise .linearityError
        [.text "Forgot to consume a linear variable: ", .code name.string, .text "."]
    else
      return tbl.eraseRow name

def removeEntries (tbl : StateTbl) : List Identifier → Check StateTbl
  | [] => return tbl
  | name :: names => do removeEntries (← tbl.removeEntry name) names

def isPending (tbl : StateTbl) (name : Identifier) : Bool := name ∈ tbl.pending

def markPending (tbl : StateTbl) (name : Identifier) : Comp StateTbl :=
  if tbl.isPending name then
    internalErr "Identifier twice marked pending."
  else
    .ok { tbl with pending := name :: tbl.pending }

def removePending (tbl : StateTbl) (name : Identifier) : Comp StateTbl :=
  if tbl.isPending name then
    .ok { tbl with pending := tbl.pending.filter fun other => other ≠ name }
  else
    internalErr
      "Tried to remove_pending an identifier not on the list of pending variables."

end StateTbl

/-- The elements of the first list that are not in the second. -/
def subtract (a b : List Identifier) : List Identifier := a.filter fun name => name ∉ b

def pendingError (names : List Identifier) : Comp StateTbl :=
  let one := names.length = 1
  australRaise .linearityError
    [.text "The ", .text (if one then " variable " else " variables "),
      .code (", ".intercalate (names.map Identifier.string)),
      .text (if one then " was " else " were "),
      .text "consumed in the loop, without afterwards being reassigned."]

/-! ## Appearances of variables in expressions -/

mutual
/-- How often a variable appears in an expression. -/
def count (name : Identifier) : TExpr → Nat
  | .paramVar name' _ | .localVar name' _ | .temporary name' _ => if name = name' then 1 else 0
  | .funcall _ _ args _ _ | .methodCall _ _ _ args _ _ | .varMethodCall _ _ _ _ args _ _ _
  | .fptrCall _ args _ | .embed _ _ args => countList name args
  | .recordConstructor _ args | .unionConstructor _ _ args => countArgs name args
  | .cast expr _ | .negation expr | .deref expr | .slotAccessor expr _ _
  | .pointerSlotAccessor expr _ _ => count name expr
  | .comparison _ lhs rhs | .conjunction lhs rhs | .disjunction lhs rhs
  | .arrayIndex lhs rhs _ | .spanIndex lhs rhs _ => count name lhs + count name rhs
  | .ifExpression condition consequent alternative =>
    count name condition + (count name consequent + count name alternative)
  | .nilConstant | .boolConstant _ | .intConstant _ | .floatConstant _ | .stringConstant _
  | .constVar _ _ | .funVar _ _ _ | .sizeOf _ => 0
/-- How often a variable appears in a list of expressions. -/
def countList (name : Identifier) : List TExpr → Nat
  | [] => 0
  | expr :: exprs => count name expr + countList name exprs
/-- How often a variable appears in named arguments. -/
def countArgs (name : Identifier) : List (Identifier × TExpr) → Nat
  | [] => 0
  | (_, expr) :: exprs => count name expr + countArgs name exprs
end

def humanizeState : VarState → String
  | .unconsumed => "not yet consumed"
  | .borrowedRead => "borrowed (read-only)"
  | .borrowedWrite => "borrowed (read-write)"
  | .consumed => "consumed"

/-! ## Consistency of tables -/

def trimFreeRows : List TableRow → Comp (List TableRow)
  | [] => .ok []
  | row :: rows => do
    let linear ← linearIsh row.ty
    let rest ← trimFreeRows rows
    return if linear then row :: rest else rest

def StateTbl.trimFree (tbl : StateTbl) : Comp (List TableRow) := trimFreeRows tbl.rows

def inconsistent (stmtName : String) (name : Identifier) (first second : VarState) : Comp Unit :=
  australRaise .linearityError
    [.text "The variable ", .code name.string,
      .text " is used inconsistently in the branches of ", .text stmtName,
      .text " statement. In one branch it is ", .text (humanizeState first),
      .text " while in the other it is ", .text (humanizeState second), .text "."]

/-- The linear variables both tables have must be in the same state. -/
def tablesAreConsistent (stmtName : String) (a b : StateTbl) : Comp Unit := do
  let a ← a.trimFree
  let b ← b.trimFree
  a.forM fun row =>
    match StateTbl.findRow b row.name with
    | none => .ok ()
    | some rowB =>
      match StateTbl.findRow a row.name with
      | some rowA =>
        if rowA.state ≠ rowB.state then
          inconsistent stmtName row.name rowA.state rowB.state
        else
          .ok ()
      | none => internalErr "bad state table"

/-- Tables are compared in pairs: the first with the second, the third with the
fourth, and so on. -/
def tableListIsConsistent : List StateTbl → Comp Unit
  | a :: b :: rest => do
    tablesAreConsistent "a case" a b
    tableListIsConsistent rest
  | [_] => .ok ()
  | [] => .ok ()

/-! ## Expressions -/

/-- Raise an error about a variable, if its type is linear. -/
def linearVarError (name : Identifier) (ty : Ty) (message : String) : Comp Unit := do
  if ← linearIsh ty then
    australRaise .linearityError [.text "The variable ", .code name.string, .text message]

def errorConsumedMoreThanOnce (name : Identifier) (ty : Ty) : Comp Unit :=
  linearVarError name ty " is consumed multiple times within the same expression."

def errorReadBorrowedAndConsumed (name : Identifier) (ty : Ty) : Comp Unit :=
  linearVarError name ty " cannot be consumed while it is borrowed (immutably)."

def errorWriteBorrowedAndConsumed (name : Identifier) (ty : Ty) : Comp Unit :=
  linearVarError name ty "cannot be consumed while it is borrowed (mutably)."

def errorAlreadyConsumed (name : Identifier) (ty : Ty) : Comp Unit :=
  linearVarError name ty " has already been consumed."

def consumeOnce (tbl : StateTbl) (depth : Nat) (name : Identifier) (ty : Ty) :
    Check StateTbl := do
  ledgerNote name ty depth .consume
  let tbl ← if ← linearIsh ty then tbl.updateTbl name .consumed else pure tbl
  let row ← tbl.getEntryOrFail name
  if depth ≠ row.depth then
    if ← linearIsh ty then tbl.markPending name else return tbl
  else
    return tbl

def checkVarInExpr (tbl : StateTbl) (depth : Nat) (name : Identifier) (ty : Ty) (expr : TExpr) :
    Check StateTbl := do
  let row ← tbl.getEntryOrFail name
  match row.state, count name expr with
  | _, 0 => return tbl
  | .unconsumed, 1 => consumeOnce tbl depth name ty
  | .unconsumed, _ => do
    errorConsumedMoreThanOnce name ty
    return tbl
  | .borrowedRead, _ => do
    errorReadBorrowedAndConsumed name ty
    return tbl
  | .borrowedWrite, _ => do
    errorWriteBorrowedAndConsumed name ty
    return tbl
  | .consumed, _ => do
    errorAlreadyConsumed name ty
    return tbl

/-- Check every variable of the table against the expression. -/
def checkExpr (tbl : StateTbl) (depth : Nat) (expr : TExpr) : Check StateTbl :=
  (tbl.rows.map fun row => (row.name, row.ty)).foldlM
    (fun tbl var => checkVarInExpr tbl depth var.1 var.2 expr) tbl

/-! ## Statements -/

def cannotAssign (name : Identifier) : Comp StateTbl :=
  australRaise .linearityError
    [.text "Cannot assign to the variable ", .code name.string,
      .text " because it is not yet consumed."]

/-- What an assignment does to the variable it assigns. -/
def reassign (tbl : StateTbl) (depth : Nat) (row : TableRow) : Check StateTbl := do
  if row.state = .consumed then
    ledgerNote row.name row.ty depth .reacquire
    let tbl ← tbl.updateTbl row.name .unconsumed
    if tbl.isPending row.name then tbl.removePending row.name else return tbl
  else if ← linearIsh row.ty then
    cannotAssign row.name
  else
    return tbl

def addBindingEntries (tbl : StateTbl) (depth : Nat) (bindings : List TypedBinding) :
    Check StateTbl :=
  bindings.foldlM (fun tbl binding => tbl.addEntry binding.rename binding.ty depth) tbl

def checkLoopPending (before after : StateTbl) : Comp StateTbl :=
  let newPending := subtract after.pending before.pending
  if newPending.length > 0 then pendingError newPending else .ok after

def borrowEvent : BorrowStmtKind → LedgerEvent
  | .read => .borrowRead
  | .write => .borrowWrite
  | .reborrow => .reborrow

def borrowedState : BorrowStmtKind → VarState
  | .read => .borrowedRead
  | .write => .borrowedWrite
  | .reborrow => .borrowedWrite

def cannotBorrow (mode : BorrowStmtKind) (original : Identifier) (state : VarState) :
    Comp StateTbl :=
  let modeString :=
    match mode with
    | .read => "borrow (immutably)"
    | .write => "borrow (mutably)"
    | .reborrow => "reborrow"
  australRaise .linearityError
    [.text ("Cannot " ++ modeString ++ " the variable "), .code original.string,
      .text " because it is already ", .text (humanizeState state), .text "."]

/-- Give the original the state it has while it is borrowed. -/
def markBorrowed (tbl : StateTbl) (originalRow : TableRow) (during : VarState) : Comp StateTbl :=
  if originalRow.state = during then .ok tbl else tbl.updateTbl originalRow.name during

/-- The value is owned again when the outermost borrow ends. -/
def endBorrow (originalRow : TableRow) (depth : Nat) : Check Unit := do
  if ← borrowPop originalRow.name then
    ledgerNote originalRow.name originalRow.ty depth .unborrow

/-- The scope of a borrow: the original gets the state `during` in the body and
the state `afterwards` behind it. -/
def checkBorrowScope (tbl : StateTbl) (depth : Nat) (originalRow : TableRow)
    (rename : Identifier) (refType : Ty) (event : LedgerEvent) (during afterwards : VarState)
    (walkBody : StateTbl → Check StateTbl) : Check StateTbl := do
  borrowPush originalRow.name
  ledgerNote originalRow.name originalRow.ty depth event
  let tbl ← markBorrowed tbl originalRow during
  let tbl ← tbl.addEntry rename refType depth
  let tbl ← walkBody tbl
  endBorrow originalRow depth
  let tbl ← tbl.updateTbl originalRow.name afterwards
  tbl.removeEntry rename

def notConsumedAtReturn (name : Identifier) : Comp Unit :=
  australRaise .linearityError
    [.text "The variable ", .code name.string,
      .text (" is not consumed by the time of the return statement. Did you forget to call a " ++
        "destructor, or destructure the contents?")]

/-- At a return every linear variable is consumed, except write references. -/
def checkReturnRow (row : TableRow) : Comp Unit := do
  if row.state = .consumed then
    return ()
  else if StateTbl.isWriteRef row.ty then
    return ()
  else if ← linearIsh row.ty then
    notConsumedAtReturn row.name

def checkReturnRows (rows : List TableRow) : Comp Unit := rows.forM checkReturnRow

mutual
def checkStmt (tbl : StateTbl) (depth : Nat) : TStmt → Check StateTbl
  | .skip => return tbl
  | .letStmt _ name ty body => do
    let tbl ← tbl.addEntry name ty depth
    let tbl ← checkStmt tbl depth body
    tbl.removeEntry name
  | .letTmp name ty value => do
    let tbl ← tbl.addEntry name ty depth
    checkExpr tbl depth value
  | .assignTmp name value => do
    let tbl ← checkExpr tbl depth value
    match tbl.getEntry name with
    | some row => reassign tbl depth row
    | none => return tbl
  | .destructure _ bindings value body => do
    let tbl ← checkExpr tbl depth value
    let tbl ← addBindingEntries tbl depth bindings
    let tbl ← checkStmt tbl depth body
    tbl.removeEntries (bindings.map TypedBinding.rename)
  | .assign lvalue value => do
    let tbl ← checkExpr tbl depth lvalue
    checkExpr tbl depth value
  | .assignVar name value => do
    let tbl ← checkExpr tbl depth value
    let row ← tbl.getEntryOrFail name.localName
    reassign tbl depth row
  | .initialAssign _ value => checkExpr tbl depth value
  | .ifStmt condition consequent alternative => do
    let tbl ← checkExpr tbl depth condition
    let branch ← nextBranch
    let trueTbl ← withArm branch 0 (checkStmt tbl depth consequent)
    let falseTbl ← withArm branch 1 (checkStmt tbl depth alternative)
    tablesAreConsistent "an if" trueTbl falseTbl
    return trueTbl
  | .caseStmt scrutinee whens _ => do
    let tbl ← checkExpr tbl depth scrutinee
    let branch ← nextBranch
    let tbls ← checkWhens tbl depth branch 0 whens
    tableListIsConsistent tbls
    return tbls.headD tbl
  | .whileStmt condition body => do
    let checkedTbl ← checkExpr tbl depth condition
    let bodyTbl ← checkStmt checkedTbl (depth + 1) body
    -- The source takes the pending variables before the condition is checked.
    checkLoopPending tbl bodyTbl
  | .forStmt _ start final body => do
    let tbl ← checkExpr tbl depth start
    let tbl ← checkExpr tbl depth final
    let bodyTbl ← checkStmt tbl (depth + 1) body
    checkLoopPending tbl bodyTbl
  | .borrow original rename _ _ refType body mode => do
    let row ← tbl.getEntryOrFail original
    if row.state = .unconsumed then
      checkBorrowScope tbl depth row rename refType (borrowEvent mode) (borrowedState mode)
        .unconsumed fun tbl => checkStmt tbl depth body
    -- A variable that is already read-borrowed may be read-borrowed again.
    else if mode = .read ∧ row.state = .borrowedRead then
      checkBorrowScope tbl depth row rename refType .borrowRead .borrowedRead .borrowedRead
        fun tbl => checkStmt tbl depth body
    else
      cannotBorrow mode original row.state
  | .block first second => do
    let tbl ← checkStmt tbl depth first
    checkStmt tbl depth second
  | .discarding value => checkExpr tbl depth value
  | .returnStmt value => do
    let tbl ← checkExpr tbl depth value
    checkReturnRows tbl.rows
    return tbl
/-- Check the arms of a case, each from the same table. -/
def checkWhens (tbl : StateTbl) (depth branch arm : Nat) :
    List (TypedWhen TStmt) → Check (List StateTbl)
  | [] => return []
  | whn :: whens => do
    let first ← withArm branch arm (checkWhen tbl depth whn)
    let rest ← checkWhens tbl depth branch (arm + 1) whens
    return first :: rest
def checkWhen (tbl : StateTbl) (depth : Nat) : TypedWhen TStmt → Check StateTbl
  | ⟨_, bindings, body⟩ => do
    let tbl ← addBindingEntries tbl depth bindings
    let tbl ← checkStmt tbl depth body
    tbl.removeEntries (bindings.map TypedBinding.rename)
end

def initTbl (tbl : StateTbl) (params : List ValueParameter) : Check StateTbl :=
  params.foldlM (fun tbl param => tbl.addEntry param.name param.ty 0) tbl

/-- Discharge the write references that are still owned when the body ends. -/
def dropLeftover (row : TableRow) : Check Unit := do
  if StateTbl.isWriteRef row.ty && row.state ≠ .consumed then
    ledgerNote row.name row.ty row.depth .drop

def linearityCheck (name kind : String) (params : List ValueParameter) (body : TStmt) :
    Check Unit := do
  modify fun state => { state with ledger := state.ledger.beginFunction name kind }
  resetBorrowDepth
  let tbl ← initTbl .emptyTbl params
  let tbl ← checkStmt tbl 0 body
  tbl.rows.forM dropLeftover
  modify fun state => { state with ledger := state.ledger.endFunction }

end AustralVM
