import AustralVM.LinearityCheck
import Mathlib.Data.List.Nodup

/-!
# The checker seen by one variable

What the linearity checker does to a variable depends on that variable's row
alone.  This file follows one variable: its view of a state table, the function
`track` that moves the view through a statement, and the theorem that every
accepted statement moves the view as `track` says.
-/

namespace AustralVM

open List Option

/-! ## Computations of the checker -/

namespace Check

variable {α β : Type} {state state' : CheckState}

@[grind =]
theorem bind_eq_ok {next : α → Check β} : (computation >>= next) state = .ok (result, state') ↔
      ∃ value between, computation state = .ok (value, between) ∧
        next value between = .ok (result, state') := by
  simp only [bind, StateT.bind]
  constructor
  · intro computed
    obtain ⟨⟨value, between⟩, computedFirst, computedRest⟩ := Comp.bind_eq_ok.mp computed
    exact ⟨value, between, computedFirst, computedRest⟩
  · rintro ⟨value, between, computedFirst, computedRest⟩
    exact Comp.bind_eq_ok.mpr ⟨(value, between), computedFirst, computedRest⟩

@[grind =]
theorem pure_eq_ok :
    (pure value : Check α) state = .ok (result, state') ↔ value = result ∧ state = state' := by
  change Except.ok (value, state) = _ ↔ _
  rw [Except.ok.injEq, Prod.mk.injEq]

@[grind =]
theorem lift_eq_ok {computation : Comp α} :
    (liftM computation : Check α) state = .ok (result, state') ↔
      computation = .ok result ∧ state = state' := by
  cases computation with
  | error => simp [liftM, monadLift, MonadLift.monadLift, StateT.lift, bind, Except.bind]
  | ok =>
    simp [liftM, monadLift, MonadLift.monadLift, StateT.lift, bind, Except.bind, pure, Except.pure]

theorem lift_bind_eq_ok {computation : Comp α} {next : α → Check β} :
    (liftM computation >>= next) state = .ok (result, state') ↔
      ∃ value, computation = .ok value ∧ next value state = .ok (result, state') := by
  rw [bind_eq_ok]
  constructor
  · rintro ⟨value, _, lifted, rest⟩
    obtain ⟨isValue, rfl⟩ := lift_eq_ok.mp lifted
    exact ⟨value, isValue, rest⟩
  · rintro ⟨value, isValue, rest⟩
    exact ⟨value, state, lift_eq_ok.mpr ⟨isValue, rfl⟩, rest⟩

end Check

def isLinear (ty : Ty) : Bool :=
  match linearIsh ty with
  | .ok linear => linear
  | .error _ => false

variable {ty : Ty}

theorem isLinear_of_linearIsh (known : linearIsh ty = .ok linear) : isLinear ty = linear := by
  simp [isLinear, known]

/-! ## Views -/

structure VarRow where
  ty : Ty
  depth : Nat
  state : VarState
  deriving Repr

structure VarView where
  row : Option VarRow
  pending : Bool
  deriving Repr

open VarView

def TableRow.varRow (row : TableRow) : VarRow := ⟨row.ty, row.depth, row.state⟩

def StateTbl.view (x : Identifier) (tbl : StateTbl) : VarView :=
  ⟨(tbl.getEntry x).map TableRow.varRow, tbl.isPending x⟩

open Check
open StateTbl hiding rows

namespace VarView

@[grind =]
def enter (ty : Ty) (depth : Nat) (view : VarView) : Option VarView :=
  match view.row with
  | none => some { view with row := some ⟨ty, depth, .unconsumed⟩ }
  | some _ => none

@[grind =]
def leave (view : VarView) : Option VarView :=
  match view.row with
  | none => none
  | some row =>
    if row.state = .consumed ∨ StateTbl.isWriteRef row.ty = true ∨ isLinear row.ty = false then
      some { view with row := none }
    else
      none

/-- An expression with so many appearances of the variable is evaluated. -/
@[grind =]
def read (depth appearances : Nat) (view : VarView) : Option VarView :=
  match view.row with
  | none => some view
  | some row =>
    if appearances = 0 ∨ isLinear row.ty = false then
      some view
    else if row.state = .unconsumed ∧ appearances = 1 then
      let consumed := some { row with state := .consumed }
      if depth = row.depth then
        some { view with row := consumed }
      else if view.pending then
        none
      else
        some ⟨consumed, true⟩
    else
      none

@[grind =]
def fill (view : VarView) : Option VarView :=
  match view.row with
  | none => none
  | some row =>
    if row.state = .consumed then
      some ⟨some { row with state := .unconsumed }, false⟩
    else if isLinear row.ty then
      none
    else
      some view

@[grind =]
def set (state : VarState) (view : VarView) : VarView :=
  { view with row := view.row.map fun row => { row with state := state } }

@[grind =]
def borrow (mode : BorrowStmtKind) (view : VarView) : Option VarState :=
  match view.row with
  | none => none
  | some row =>
    if row.state = .unconsumed then
      some (borrowedState mode)
    else if mode = .read ∧ row.state = .borrowedRead then
      some .borrowedRead
    else
      none

/-- Two branches leave the variable in the same state. -/
@[grind =]
def consistent (first second : VarView) : Bool :=
  match first.row, second.row with
  | some row, some row' => !(isLinear row.ty && isLinear row'.ty) || row.state = row'.state
  | _, _ => true

def listConsistent : List VarView → Bool
  | first :: second :: rest => first.consistent second && listConsistent rest
  | [_] => true
  | [] => true

@[grind =]
def returnable (view : VarView) : Bool :=
  match view.row with
  | none => true
  | some row => row.state = .consumed || StateTbl.isWriteRef row.ty || !isLinear row.ty

end VarView

/-! ## Following one variable through a statement -/

section Track

variable (x : Identifier)

@[grind =]
def whenNamed (name : Identifier) (step : VarView → Option VarView) (view : VarView) :
    Option VarView :=
  if name = x then step view else some view

def trackBindings (depth : Nat) (bindings : List TypedBinding) (view : VarView) :
    Option VarView :=
  bindings.foldlM
    (fun view binding => whenNamed x binding.rename (enter binding.ty depth) view) view

def trackLeaving (names : List Identifier) (view : VarView) : Option VarView :=
  names.foldlM (fun view name => whenNamed x name leave view) view

/-- The borrowed variable gets its state in the body. -/
@[grind =]
def startBorrow (original : Identifier) (mode : BorrowStmtKind) (view : VarView) :
    Option VarView :=
  if original = x then (view.borrow mode).map fun state => view.set state else some view

/-- The borrowed variable gets back the state it had before. -/
@[grind =]
def restoreBorrow (original : Identifier) (before view : VarView) : VarView :=
  match before.row with
  | some row => if original = x then view.set row.state else view
  | none => view

/-- The scope of a borrow, as the borrowed variable and as any other one sees
it. -/
def trackBorrow (depth : Nat) (original rename : Identifier) (refType : Ty)
    (mode : BorrowStmtKind) (walkBody : VarView → Option VarView) (view : VarView) :
    Option VarView := do
  let during ← startBorrow x original mode view
  let entered ← whenNamed x rename (enter refType depth) during
  let bodyView ← walkBody entered
  whenNamed x rename leave (restoreBorrow x original view bodyView)

mutual
/-- How checking a statement moves the view of the variable. -/
def track (depth : Nat) : TStmt → VarView → Option VarView
  | .skip, view => some view
  | .letStmt _ name ty body, view => do
    let view ← whenNamed x name (enter ty depth) view
    let view ← track depth body view
    whenNamed x name leave view
  | .letTmp name ty value, view => do
    let view ← whenNamed x name (enter ty depth) view
    view.read depth (count x value)
  | .assignTmp name value, view => do
    let view ← view.read depth (count x value)
    if view.row.isSome then whenNamed x name fill view else some view
  | .destructure _ bindings value body, view => do
    let view ← view.read depth (count x value)
    let view ← trackBindings x depth bindings view
    let view ← track depth body view
    trackLeaving x (bindings.map TypedBinding.rename) view
  | .assign lvalue value, view => do
    let view ← view.read depth (count x lvalue)
    view.read depth (count x value)
  | .assignVar name value, view => do
    let view ← view.read depth (count x value)
    whenNamed x name.localName fill view
  | .initialAssign _ value, view => view.read depth (count x value)
  | .ifStmt condition consequent alternative, view => do
    let view ← view.read depth (count x condition)
    let trueView ← track depth consequent view
    let falseView ← track depth alternative view
    if trueView.consistent falseView then some trueView else none
  | .caseStmt scrutinee whens _, view => do
    let view ← view.read depth (count x scrutinee)
    let views ← trackWhens depth whens view
    if listConsistent views then some (views.headD view) else none
  | .whileStmt condition body, view => do
    let checkedView ← view.read depth (count x condition)
    let bodyView ← track (depth + 1) body checkedView
    if bodyView.pending && !view.pending then none else some bodyView
  | .forStmt _ start final body, view => do
    let view ← view.read depth (count x start)
    let view ← view.read depth (count x final)
    let bodyView ← track (depth + 1) body view
    if bodyView.pending && !view.pending then none else some bodyView
  | .borrow original rename _ _ refType body mode, view =>
    trackBorrow x depth original rename refType mode (track depth body) view
  | .block first second, view => do
    let view ← track depth first view
    track depth second view
  | .discarding value, view => view.read depth (count x value)
  | .returnStmt value, view => do
    let view ← view.read depth (count x value)
    if view.returnable then some view else none
def trackWhens (depth : Nat) : List (TypedWhen TStmt) → VarView → Option (List VarView)
  | [], _ => some []
  | whn :: whens, view => do
    let first ← trackWhen depth whn view
    let rest ← trackWhens depth whens view
    return first :: rest
def trackWhen (depth : Nat) : TypedWhen TStmt → VarView → Option VarView
  | ⟨_, bindings, body⟩, view => do
    let view ← trackBindings x depth bindings view
    let view ← track depth body view
    trackLeaving x (bindings.map TypedBinding.rename) view
end

end Track

/-! What `track` does at each statement that takes more than one step. -/

section TrackSteps

variable {x name : Identifier} {depth : Nat} {view view' : VarView} {body : TStmt} {value : TExpr}

theorem VarView.enter_eq_some (entered : view.enter ty depth = some view') :
    view.row = none ∧ view' = { view with row := some ⟨ty, depth, .unconsumed⟩ } := by
  unfold enter at entered
  split at entered
  · rename_i absent
    exact ⟨absent, (Option.some.inj entered).symm⟩
  · cases entered

/-- Variables come into scope, the body is walked and they leave. -/
def TracksScope (x : Identifier) (depth : Nat) (bindings : List TypedBinding) (body : TStmt)
    (view view' : VarView) : Prop :=
  ∃ entered bodyView, trackBindings x depth bindings view = some entered ∧
    track x depth body entered = some bodyView ∧
    trackLeaving x (bindings.map TypedBinding.rename) bodyView = some view'

theorem trackBindings_singleton (slot : Identifier) :
    trackBindings x depth [⟨slot, ty, name⟩] view = whenNamed x name (enter ty depth) view := by
  simp [trackBindings]

theorem trackLeaving_singleton : trackLeaving x [name] view = whenNamed x name leave view := by
  simp [trackLeaving]

theorem track_letStmt
    (tracked : track x depth (.letStmt mutability name ty body) view = some view') :
    TracksScope x depth [⟨name, ty, name⟩] body view view' := by
  simpa only [TracksScope, trackBindings_singleton, map_cons, map_nil,
    trackLeaving_singleton, track, bind_eq_bind, bind_eq_some_iff,
    ← exists_and_left] using tracked

theorem track_letTmp (tracked : track x depth (.letTmp name ty value) view = some view') :
    ∃ entered, whenNamed x name (enter ty depth) view = some entered ∧
      entered.read depth (count x value) = some view' := by
  exact bind_eq_some_iff.mp tracked

theorem track_assignTmp (tracked : track x depth (.assignTmp name value) view = some view') :
    ∃ readView, view.read depth (count x value) = some readView ∧
      (readView.row.isSome = true → whenNamed x name fill readView = some view') ∧
      (readView.row.isSome = false → view' = readView) := by
  obtain ⟨readView, read, tracked⟩ := bind_eq_some_iff.mp tracked
  refine ⟨readView, read, fun present => ?_, fun absent => ?_⟩
  · rwa [if_pos present] at tracked
  · rw [if_neg (by simp [absent])] at tracked
    exact (Option.some.inj tracked).symm

theorem track_destructure
    (tracked : track x depth (.destructure mutability bindings value body) view = some view') :
    ∃ readView, view.read depth (count x value) = some readView ∧
      TracksScope x depth bindings body readView view' := by
  simpa only [TracksScope, track, bind_eq_bind, bind_eq_some_iff, ← exists_and_left] using tracked

theorem track_assign (tracked : track x depth (.assign lvalue value) view = some view') :
    ∃ between, view.read depth (count x lvalue) = some between ∧
      between.read depth (count x value) = some view' := by
  exact bind_eq_some_iff.mp tracked

theorem track_assignVar {name : QIdent}
    (tracked : track x depth (.assignVar name value) view = some view') :
    ∃ readView, view.read depth (count x value) = some readView ∧
      whenNamed x name.localName fill readView = some view' := by
  exact bind_eq_some_iff.mp tracked

theorem track_ifStmt
    (tracked : track x depth (.ifStmt condition consequent alternative) view = some view') :
    ∃ readView falseView, view.read depth (count x condition) = some readView ∧
      track x depth consequent readView = some view' ∧
      track x depth alternative readView = some falseView ∧ view'.consistent falseView = true := by
  obtain ⟨readView, read, tracked⟩ := bind_eq_some_iff.mp tracked
  obtain ⟨_, trueEq, tracked⟩ := bind_eq_some_iff.mp tracked
  obtain ⟨falseView, falseEq, tracked⟩ := bind_eq_some_iff.mp tracked
  obtain ⟨consistent, ⟨⟩⟩ := ite_none_right_eq_some.mp tracked
  exact ⟨readView, falseView, read, trueEq, falseEq, consistent⟩

theorem track_caseStmt
    (tracked : track x depth (.caseStmt scrutinee whens kind) view = some view') :
    ∃ readView views, view.read depth (count x scrutinee) = some readView ∧
      trackWhens x depth whens readView = some views ∧
      listConsistent views = true ∧ view' = views.headD readView := by
  obtain ⟨readView, read, tracked⟩ := bind_eq_some_iff.mp tracked
  obtain ⟨views, viewsEq, tracked⟩ := bind_eq_some_iff.mp tracked
  obtain ⟨consistent, ⟨⟩⟩ := ite_none_right_eq_some.mp tracked
  exact ⟨readView, views, read, viewsEq, consistent, rfl⟩

theorem track_whileStmt (tracked : track x depth (.whileStmt condition body) view = some view') :
    ∃ readView, view.read depth (count x condition) = some readView ∧
      track x (depth + 1) body readView = some view' ∧
      (view'.pending = true → view.pending = true) := by
  obtain ⟨readView, read, tracked⟩ := bind_eq_some_iff.mp tracked
  obtain ⟨_, bodyEq, tracked⟩ := bind_eq_some_iff.mp tracked
  obtain ⟨noneNew, ⟨⟩⟩ := ite_none_left_eq_some.mp tracked
  exact ⟨readView, read, bodyEq, by simpa using noneNew⟩

theorem track_forStmt (tracked : track x depth (.forStmt name start final body) view = some view') :
    ∃ startView finalView, view.read depth (count x start) = some startView ∧
      startView.read depth (count x final) = some finalView ∧
      track x (depth + 1) body finalView = some view' ∧
      (view'.pending = true → finalView.pending = true) := by
  obtain ⟨startView, readStart, tracked⟩ := bind_eq_some_iff.mp tracked
  obtain ⟨finalView, readFinal, tracked⟩ := bind_eq_some_iff.mp tracked
  obtain ⟨_, bodyEq, tracked⟩ := bind_eq_some_iff.mp tracked
  obtain ⟨noneNew, ⟨⟩⟩ := ite_none_left_eq_some.mp tracked
  exact ⟨startView, finalView, readStart, readFinal, bodyEq, by simpa using noneNew⟩

theorem track_borrow
    (tracked : track x depth (.borrow original rename region origType refType body mode) view =
      some view') : ∃ during entered bodyView, startBorrow x original mode view = some during ∧
      whenNamed x rename (enter refType depth) during = some entered ∧
      track x depth body entered = some bodyView ∧
      whenNamed x rename leave (restoreBorrow x original view bodyView) = some view' := by
  simpa only [track, trackBorrow, bind_eq_bind, bind_eq_some_iff, ← exists_and_left] using tracked

theorem track_block (tracked : track x depth (.block first second) view = some view') :
    ∃ between, track x depth first view = some between ∧
      track x depth second between = some view' := by
  exact bind_eq_some_iff.mp tracked

theorem track_returnStmt (tracked : track x depth (.returnStmt value) view = some view') :
    view.read depth (count x value) = some view' ∧ view'.returnable = true := by
  obtain ⟨_, read, tracked⟩ := bind_eq_some_iff.mp tracked
  obtain ⟨returnable, ⟨⟩⟩ := ite_none_right_eq_some.mp tracked
  exact ⟨read, returnable⟩

theorem track_when {whn : TypedWhen TStmt} (tracked : trackWhen x depth whn view = some view') :
    TracksScope x depth whn.bindings whn.body view view' := by
  obtain ⟨_, _, _⟩ := whn
  simpa only [TracksScope, trackWhen, bind_eq_bind, bind_eq_some_iff,
    ← exists_and_left] using tracked

end TrackSteps

/-! ## Checking and tracking side by side -/

/-- Whatever a check gives shows what was tracked. -/
def Shows {α β : Type} (shows : α → β) (check : Check α) (tracked : Option β) : Prop :=
  ∀ ⦃state value state'⦄, check state = .ok (value, state') → tracked = some (shows value)

namespace Shows

variable {α β γ δ : Type} {shows : α → β} {shows' : γ → δ}

theorem pure : Shows shows (pure value) (some (shows value)) := by
  intro _ _ _ given
  rw [(pure_eq_ok.mp given).1]

theorem ofPure (given : tracked = some (shows value)) : Shows shows (Pure.pure value) tracked :=
  given ▸ pure

theorem bind {next : α → Check γ} {trackNext : β → Option δ} (first : Shows shows check tracked)
    (second : ∀ value, Shows shows' (next value) (trackNext (shows value))) :
    Shows shows' (check >>= next) (tracked >>= trackNext) := by
  intro _ _ _ given
  obtain ⟨value, _, checked, given⟩ := bind_eq_ok.mp given
  rw [first checked]
  exact second value given

theorem after {next : α → Check γ} {tracked : Option δ}
    (second : ∀ value, Shows shows' (next value) tracked) :
    Shows shows' (check >>= next) tracked := by
  intro _ _ _ given
  obtain ⟨value, _, _, given⟩ := bind_eq_ok.mp given
  exact second value given

theorem lift {computation : Comp α}
    (given : ∀ value, computation = .ok value → tracked = some (shows value)) :
    Shows shows (liftM computation) tracked :=
  fun _ value _ lifted => given value (lift_eq_ok.mp lifted).1

theorem raised {computation : Comp α} (raises : ∀ value, computation ≠ .ok value) :
    Shows shows (liftM computation) tracked :=
  .lift fun value isValue => absurd isValue (raises value)

theorem afterLift {computation : Comp α} {next : α → Check γ} {tracked : Option δ}
    (second : ∀ value, computation = .ok value → Shows shows' (next value) tracked) :
    Shows shows' (liftM computation >>= next) tracked := by
  intro _ _ _ given
  obtain ⟨value, isValue, given⟩ := lift_bind_eq_ok.mp given
  exact second value isValue given

end Shows

/-! ## The operations on tables -/

namespace StateTbl

theorem getEntry_consRow (tbl : StateTbl) (row : TableRow)
    (absent : row.name ∉ tbl.rows.map TableRow.name) (x : Identifier) :
    (tbl.consRow row absent).getEntry x = if row.name = x then some row else tbl.getEntry x := by
  by_cases sameName : row.name = x
  · simp [getEntry, findRow, consRow, sameName]
  · simp [getEntry, findRow, consRow, sameName]

theorem getEntry_eraseRow (tbl : StateTbl) (name x : Identifier) :
    (tbl.eraseRow name).getEntry x = if name = x then none else tbl.getEntry x := by
  simp only [getEntry, findRow, eraseRow, find?_filter]
  by_cases sameName : name = x
  · subst sameName
    rw [if_pos rfl, find?_eq_none]
    intro _ _
    simp
  · rw [if_neg sameName]
    congr 1
    funext row
    by_cases rowName : row.name = x
    · simp [rowName, Ne.symm sameName]
    · simp [rowName]

variable {row : TableRow}

theorem name_of_getEntry {tbl : StateTbl} (found : tbl.getEntry name = some row) :
    row.name = name := by
  simpa using find?_some found

theorem findRow_of_mem {rows : List TableRow} (distinct : (rows.map TableRow.name).Nodup)
    (member : row ∈ rows) : findRow rows row.name = some row := by
  cases found : findRow rows row.name with
  | none => simpa using find?_eq_none.mp found row member
  | some row' =>
    have sameName : row'.name = row.name := by simpa using find?_some found
    rw [inj_on_of_nodup_map distinct (mem_of_find?_eq_some found) member sameName]

section

variable (tbl : StateTbl)
include tbl

theorem view_consRow (row : TableRow) (absent : row.name ∉ tbl.rows.map TableRow.name)
    (x : Identifier) : (tbl.consRow row absent).view x =
      if row.name = x then { tbl.view x with row := some row.varRow } else tbl.view x := by
  rw [view, getEntry_consRow]
  split <;> rfl

theorem view_eraseRow (name x : Identifier) : (tbl.eraseRow name).view x =
      if name = x then { tbl.view x with row := none } else tbl.view x := by
  rw [view, getEntry_eraseRow]
  split <;> rfl

theorem view_row (x : Identifier) : (tbl.view x).row = (tbl.getEntry x).map TableRow.varRow :=
  rfl

end

variable {tbl tbl' : StateTbl} {state state' : CheckState} {x name : Identifier}

theorem getEntryOrFail_eq_ok :
    tbl.getEntryOrFail name = .ok row ↔ tbl.getEntry name = some row := by
  unfold getEntryOrFail
  split <;> simp_all

theorem view_addEntry : Shows (view x) (tbl.addEntry name ty depth)
    (whenNamed x name (enter ty depth) (tbl.view x)) := by
  unfold addEntry
  split
  · rename_i absent
    refine .after fun _ => .ofPure ?_
    rw [view_consRow, whenNamed]
    by_cases sameName : name = x
    · subst sameName
      simp [enter, view_row, absent, TableRow.varRow]
    · simp [sameName]
  · exact .raised fun _ => Comp.internalErr_ne_ok

theorem view_updateTbl (updated : tbl.updateTbl name varState = .ok tbl') :
    tbl'.view x = if name = x then (tbl.view x).set varState else tbl.view x := by
  unfold updateTbl at updated
  split at updated
  · exact absurd updated Comp.internalErr_ne_ok
  · rename_i row found
    cases updated
    rw [view_consRow, view_eraseRow]
    by_cases sameName : name = x
    · subst sameName
      simp [VarView.set, view_row, found, TableRow.varRow]
    · simp [sameName]

theorem view_removeEntry :
    Shows (view x) (tbl.removeEntry name) (whenNamed x name leave (tbl.view x)) := by
  unfold removeEntry
  split
  · exact .raised fun _ => Comp.internalErr_ne_ok
  · rename_i row found
    have left (mayLeave : row.state = .consumed ∨ isWriteRef row.ty = true ∨
        isLinear row.ty = false) : Shows (view x) (pure (tbl.eraseRow name))
          (whenNamed x name leave (tbl.view x)) := by
      apply Shows.ofPure
      rw [view_eraseRow, whenNamed]
      by_cases sameName : name = x
      · subst sameName
        simp [leave, view_row, found, TableRow.varRow, mayLeave]
      · simp [sameName]
    split
    · rename_i mayDrop
      rw [Bool.or_eq_true, decide_eq_true_eq] at mayDrop
      have mayLeave := left (mayDrop.imp_right .inl)
      split
      · exact .after fun _ => mayLeave
      · exact mayLeave
    · refine .afterLift fun linear known => ?_
      cases linear with
      | true => exact .raised fun _ => Comp.australRaise_ne_ok
      | false => exact left (.inr (.inr (isLinear_of_linearIsh known)))

theorem view_removeEntries :
    Shows (view x) (tbl.removeEntries names) (trackLeaving x names (tbl.view x)) := by
  induction names generalizing tbl with
  | nil => exact .pure
  | cons _ _ ih =>
    rw [trackLeaving, foldlM_cons]
    exact view_removeEntry.bind fun _ => ih

theorem view_markPending (marked : tbl.markPending name = .ok tbl') :
    tbl'.view x = { tbl.view x with pending := (tbl.view x).pending || decide (x = name) } ∧
      tbl.isPending name = false := by
  unfold markPending at marked
  split at marked
  · exact absurd marked Comp.internalErr_ne_ok
  · rename_i notPending
    cases marked
    refine ⟨?_, by simpa using notPending⟩
    simp only [view, getEntry, isPending, mem_cons]
    by_cases sameName : x = name <;> simp [sameName]

theorem view_removePending (removed : tbl.removePending name = .ok tbl') :
    tbl'.view x = { tbl.view x with pending := (tbl.view x).pending && decide (x ≠ name) } := by
  unfold removePending at removed
  split at removed
  · cases removed
    simp only [view, getEntry, isPending, mem_filter]
    by_cases sameName : x = name <;> simp [sameName]
  · exact absurd removed Comp.internalErr_ne_ok

end StateTbl

/-! ## Expressions -/

section Expressions

variable {tbl tbl' : StateTbl} {state state' : CheckState} {depth : Nat} {x name : Identifier}
  {expr : TExpr} {row : TableRow} {ty : Ty}

theorem isLinear_eq_false_of_linearVarError (passed : linearVarError name ty message = .ok result) :
    isLinear ty = false := by
  obtain ⟨linear, known, passed⟩ := Comp.bind_eq_ok.mp passed
  cases linear with
  | true => exact absurd passed Comp.australRaise_ne_ok
  | false => exact isLinear_of_linearIsh known

/-- The variable is read, if it is the one in view. -/
def ReadsVar (x name : Identifier) (depth : Nat) (expr : TExpr) (tbl : StateTbl)
    (check : Check StateTbl) : Prop :=
  Shows (StateTbl.view x) check
    (whenNamed x name (read depth (count x expr)) (tbl.view x))

section

variable (found : tbl.getEntry name = some row)
include found

theorem readsVar_pure (noEffect : count name expr = 0 ∨ isLinear row.ty = false) :
    ReadsVar x name depth expr tbl (pure tbl) := by
  apply Shows.ofPure
  rw [whenNamed]
  split
  · rename_i sameName
    subst sameName
    simp [VarView.read, view_row, found, TableRow.varRow, noEffect]
  · rfl

theorem readsVar_consumeOnce (unconsumed : row.state = .unconsumed) (once : count name expr = 1) :
    ReadsVar x name depth expr tbl (consumeOnce tbl depth name row.ty) := by
  refine .after fun _ => .afterLift fun linear known => ?_
  have linearity := isLinear_of_linearIsh known
  cases linear with
  | false =>
    have idle : ReadsVar x name depth expr tbl (pure tbl) := readsVar_pure found (.inr linearity)
    rw [if_neg Bool.false_ne_true, pure_bind]
    refine .afterLift fun _ _ => ?_
    split
    · refine .afterLift fun _ known' => ?_
      cases known.symm.trans known'
      exact idle
    · exact idle
  | true =>
    refine .afterLift fun updated isUpdated => .afterLift fun row' found' => ?_
    have updatedView := view_updateTbl (x := x) isUpdated
    have rowView := view_updateTbl (x := name) isUpdated
    rw [getEntryOrFail_eq_ok] at found'
    simp [StateTbl.view, found', found, VarView.set, TableRow.varRow] at rowView
    obtain ⟨⟨-, keptDepth, -⟩, keptPending⟩ := rowView
    rw [keptDepth]
    split
    · rename_i otherDepth
      refine .afterLift fun _ known' => ?_
      cases known.symm.trans known'
      refine .lift fun _ marked => ?_
      obtain ⟨markedView, notPending⟩ := view_markPending (x := x) marked
      rw [keptPending] at notPending
      rw [markedView, updatedView, whenNamed]
      split
      · rename_i sameName
        subst sameName
        simp [VarView.read, VarView.set, StateTbl.view, found, TableRow.varRow, linearity,
          unconsumed, once, otherDepth, notPending]
      · rename_i differentName
        simp [Ne.symm differentName]
    · rename_i sameDepth
      refine .ofPure ?_
      rw [updatedView, whenNamed]
      split
      · rename_i sameName
        subst sameName
        simp [VarView.read, VarView.set, StateTbl.view, found, TableRow.varRow, linearity,
          unconsumed, once, not_not.mp sameDepth]
      · rfl

theorem readsVar_checkVarInExpr :
    ReadsVar x name depth expr tbl (checkVarInExpr tbl depth name row.ty expr) := by
  refine .afterLift fun row' found' => ?_
  rw [getEntryOrFail_eq_ok, found, Option.some.injEq] at found'
  subst found'
  have free {message : String} : ReadsVar x name depth expr tbl (do
      liftM (linearVarError name row.ty message)
      pure tbl) :=
    .afterLift fun _ passed => readsVar_pure found (.inr (isLinear_eq_false_of_linearVarError passed))
  split
  · rename_i none
    exact readsVar_pure found (.inl none)
  · rename_i unconsumed once
    exact readsVar_consumeOnce found unconsumed once
  all_goals exact free

end

theorem view_checkVars {vars : List TableRow} (distinct : (vars.map TableRow.name).Nodup)
    (present : ∀ var ∈ vars, ∃ row, tbl.getEntry var.name = some row ∧ row.ty = var.ty)
    (checked : (vars.map fun row => (row.name, row.ty)).foldlM
      (fun tbl var => checkVarInExpr tbl depth var.1 var.2 expr) tbl state = .ok (tbl', state')) :
    (if x ∈ vars.map TableRow.name then (tbl.view x).read depth (count x expr)
      else some (tbl.view x)) = some (tbl'.view x) := by
  induction vars generalizing tbl state with
  | nil =>
    obtain ⟨rfl, _⟩ := pure_eq_ok.mp checked
    simp
  | cons var vars ih =>
    rw [map_cons, foldlM_cons] at checked
    obtain ⟨between, _, checkedFirst, checkedRest⟩ := bind_eq_ok.mp checked
    rw [map_cons, nodup_cons] at distinct
    obtain ⟨row, found, sameTy⟩ := present var mem_cons_self
    rw [← sameTy] at checkedFirst
    have firstView : ∀ x, _ := fun x => readsVar_checkVarInExpr (x := x) found checkedFirst
    simp only [whenNamed] at firstView
    have restPresent : ∀ other ∈ vars,
        ∃ row, between.getEntry other.name = some row ∧ row.ty = other.ty := by
      intro other member
      obtain ⟨_, otherFound, otherTy⟩ := present other (mem_cons_of_mem _ member)
      have differentName : var.name ≠ other.name := fun sameName =>
        distinct.1 (sameName ▸ mem_map_of_mem member)
      have kept := firstView other.name
      rw [if_neg differentName, Option.some.injEq] at kept
      have keptRow := congrArg VarView.row kept
      rw [view_row, view_row, otherFound, map_some] at keptRow
      obtain ⟨row', foundRow', varRowEq⟩ := map_eq_some_iff.mp keptRow.symm
      refine ⟨row', foundRow', ?_⟩
      rw [← otherTy]
      exact congrArg VarRow.ty varRowEq
    have restView := ih distinct.2 restPresent checkedRest
    have first := firstView x
    by_cases sameName : var.name = x
    · subst sameName
      rw [if_neg distinct.1, Option.some.injEq] at restView
      rw [if_pos rfl] at first
      rw [if_pos (by simp), first, restView]
    · rw [if_neg sameName, Option.some.injEq] at first
      rw [first, ← restView]
      simp [Ne.symm sameName]

theorem view_checkExpr :
    Shows (StateTbl.view x) (checkExpr tbl depth expr) ((tbl.view x).read depth (count x expr)) := by
  intro _ _ _ checked
  have present : ∀ var ∈ tbl.rows, ∃ row, tbl.getEntry var.name = some row ∧ row.ty = var.ty := by
    intro var member
    exact ⟨var, findRow_of_mem tbl.nodupNames member, rfl⟩
  have view := view_checkVars (x := x) tbl.nodupNames present checked
  by_cases member : x ∈ tbl.rows.map TableRow.name
  · rwa [if_pos member] at view
  · rw [if_neg member] at view
    have absent : tbl.getEntry x = none := by
      rw [StateTbl.getEntry, StateTbl.findRow, find?_eq_none]
      intro row rowMember sameName
      exact member (mem_map.mpr ⟨row, rowMember, by simpa using sameName⟩)
    rw [← view]
    simp [VarView.read, view_row, absent]

end Expressions

/-! ## Statements -/

section Statements

variable {tbl tbl' : StateTbl} {state state' : CheckState} {depth : Nat} {x : Identifier}
  {row : TableRow} {during : VarState}

theorem view_addBindingEntries : Shows (StateTbl.view x) (addBindingEntries tbl depth bindings)
    (trackBindings x depth bindings (tbl.view x)) := by
  induction bindings generalizing tbl with
  | nil => exact .pure
  | cons _ _ ih =>
    rw [addBindingEntries, trackBindings, foldlM_cons, foldlM_cons]
    exact view_addEntry.bind fun _ => ih

theorem view_reassign {name : Identifier} (found : tbl.getEntry name = some row) :
    Shows (StateTbl.view x) (reassign tbl depth row) (whenNamed x name fill (tbl.view x)) := by
  obtain rfl := name_of_getEntry found
  unfold reassign
  split
  · rename_i consumed
    refine .after fun _ => .afterLift fun updated isUpdated => ?_
    have filled : whenNamed x row.name fill (tbl.view x) =
        some { updated.view x with pending := (updated.view x).pending && x ≠ row.name } := by
      rw [view_updateTbl isUpdated, whenNamed]
      by_cases sameName : row.name = x
      · subst sameName
        simp [VarView.fill, VarView.set, view_row, found, TableRow.varRow, consumed]
      · simp [sameName, Ne.symm sameName]
    rw [filled]
    split
    · exact .lift fun _ removed => by rw [view_removePending removed]
    · rename_i notPending
      refine .ofPure (congrArg some ?_)
      by_cases sameName : x = row.name
      · subst sameName
        simpa [StateTbl.view] using notPending
      · simp [sameName]
  · rename_i notConsumed
    refine .afterLift fun linear known => ?_
    cases linear with
    | true => exact .raised fun _ => Comp.australRaise_ne_ok
    | false =>
      refine .ofPure ?_
      rw [whenNamed]
      split
      · rename_i sameName
        subst sameName
        simp [fill, view_row, found, TableRow.varRow, notConsumed, isLinear_of_linearIsh known]
      · rfl

theorem view_checkLoopPending (passed : checkLoopPending before tbl = .ok tbl') :
    tbl' = tbl ∧ ((tbl.view x).pending && !(before.view x).pending) = false := by
  unfold checkLoopPending at passed
  simp only [gt_iff_lt] at passed
  split at passed
  · exact absurd passed Comp.australRaise_ne_ok
  · rename_i noneNew
    cases passed
    refine ⟨rfl, ?_⟩
    have subtracted : subtract tbl.pending before.pending = [] := by simpa using noneNew
    have noneLeft := filter_eq_nil_iff.mp subtracted x
    simp only [StateTbl.view, StateTbl.isPending]
    simpa using noneLeft

theorem trimFreeRows_eq_ok (trimmedTo : trimFreeRows rows = .ok trimmed) :
    trimmed = rows.filter fun row => isLinear row.ty := by
  induction rows generalizing trimmed with
  | nil => exact (Except.ok.inj trimmedTo).symm
  | cons _ _ ih =>
    obtain ⟨_, known, trimmedTo⟩ := Comp.bind_eq_ok.mp trimmedTo
    obtain ⟨_, restTo, trimmedTo⟩ := Comp.bind_eq_ok.mp trimmedTo
    obtain rfl := Comp.pure_eq_ok.mp trimmedTo
    rw [filter_cons, isLinear_of_linearIsh known, ih restTo]

theorem findRow_trimFree {trimmed : List TableRow} (trimmedTo : tbl.trimFree = .ok trimmed)
    (found : tbl.getEntry x = some row) (linear : isLinear row.ty = true) :
    row ∈ trimmed ∧ StateTbl.findRow trimmed x = some row := by
  obtain rfl := trimFreeRows_eq_ok trimmedTo
  have member : row ∈ tbl.rows.filter fun row => isLinear row.ty :=
    mem_filter.mpr ⟨mem_of_find?_eq_some found, linear⟩
  refine ⟨member, ?_⟩
  rw [← name_of_getEntry found]
  exact findRow_of_mem (tbl.nodupNames.sublist (filter_sublist.map _)) member

theorem view_tablesAreConsistent (passed : tablesAreConsistent stmtName tbl second = .ok ()) :
    (tbl.view x).consistent (second.view x) = true := by
  obtain ⟨_, rowsEq, passed⟩ := Comp.bind_eq_ok.mp passed
  obtain ⟨_, secondEq, passed⟩ := Comp.bind_eq_ok.mp passed
  cases found : tbl.getEntry x with
  | none => simp [consistent, StateTbl.view, found]
  | some row =>
    cases secondFound : second.getEntry x with
    | none => simp [consistent, StateTbl.view, secondFound]
    | some secondRow =>
      simp only [consistent, StateTbl.view, found, secondFound, map_some,
        TableRow.varRow, Bool.or_eq_true, Bool.not_eq_true', Bool.and_eq_false_iff,
        decide_eq_true_eq]
      by_cases linear : isLinear row.ty = true
      swap
      · exact .inl (.inl (by simpa using linear))
      by_cases secondLinear : isLinear secondRow.ty = true
      swap
      · exact .inl (.inr (by simpa using secondLinear))
      obtain ⟨member, inRows⟩ := findRow_trimFree rowsEq found linear
      obtain ⟨_, inSecond⟩ := findRow_trimFree secondEq secondFound secondLinear
      have rowPassed := Comp.forM_eq_ok.mp passed row member
      rw [name_of_getEntry found, inSecond, inRows] at rowPassed
      by_cases sameState : row.state = secondRow.state
      · exact .inr sameState
      · simp only [ne_eq, sameState, not_false_eq_true, if_true] at rowPassed
        exact absurd rowPassed Comp.australRaise_ne_ok

theorem view_tableListIsConsistent (passed : tableListIsConsistent tbls = .ok ()) :
    listConsistent (tbls.map (StateTbl.view x)) = true := by
  induction tbls using tableListIsConsistent.induct with
  | case1 _ _ _ ih =>
    rw [tableListIsConsistent] at passed
    obtain ⟨_, firstPassed, restPassed⟩ := Comp.bind_eq_ok.mp passed
    simp [listConsistent, view_tablesAreConsistent firstPassed, ih restPassed]
  | case2 => rfl
  | case3 => rfl

theorem withArm_eq_ok {id arm : Nat} (walked : withArm id arm walk state = .ok (result, state')) :
    ∃ inside, walk { state with ledger := state.ledger.enterArm id arm } = .ok (result, inside) ∧
      state' = { inside with ledger := inside.ledger.leaveArm state.ledger.path } := by
  obtain ⟨_, _, got, walked⟩ := bind_eq_ok.mp walked
  cases got
  obtain ⟨_, _, entered, walked⟩ := bind_eq_ok.mp walked
  cases entered
  obtain ⟨_, inside, walkedInside, walked⟩ := bind_eq_ok.mp walked
  obtain ⟨_, _, left, walked⟩ := bind_eq_ok.mp walked
  cases left
  obtain ⟨rfl, rfl⟩ := pure_eq_ok.mp walked
  exact ⟨inside, walkedInside, rfl⟩

theorem view_withArm {shows : StateTbl → VarView} (inside : Shows shows walk tracked) :
    Shows shows (withArm branch arm walk) tracked := by
  intro _ _ _ walked
  obtain ⟨_, walkedInside, _⟩ := withArm_eq_ok walked
  exact inside walkedInside

theorem view_markBorrowed (found : tbl.getEntry row.name = some row)
    (marked : markBorrowed tbl row during = .ok tbl') :
    tbl'.view x = if row.name = x then (tbl.view x).set during else tbl.view x := by
  unfold markBorrowed at marked
  split at marked
  · rename_i already
    cases marked
    split
    · rename_i sameName
      subst sameName
      simp [VarView.set, StateTbl.view, found, TableRow.varRow, already]
    · rfl
  · exact view_updateTbl marked

/-- How a borrow may start: the variable is not borrowed, or read-borrowed and
to be read-borrowed again. -/
def MayBorrow (row : TableRow) (mode : BorrowStmtKind) (during : VarState) : Prop :=
  (row.state = .unconsumed ∧ during = borrowedState mode) ∨
    (row.state ≠ .unconsumed ∧ mode = .read ∧ row.state = .borrowedRead ∧ during = .borrowedRead)

section

variable (found : tbl.getEntry row.name = some row)
include found

theorem view_startBorrow (mayBorrow : MayBorrow row mode during)
    (marked : markBorrowed tbl row during = .ok tbl') :
    startBorrow x row.name mode (tbl.view x) = some (tbl'.view x) := by
  rw [view_markBorrowed found marked, startBorrow]
  split
  · rename_i sameName
    subst sameName
    have rowView : (tbl.view row.name).row = some row.varRow := by rw [view_row, found, map_some]
    simp only [borrow, rowView, TableRow.varRow]
    rcases mayBorrow with ⟨unconsumed, rfl⟩ | ⟨notUnconsumed, isRead, borrowedRead, rfl⟩
    · rw [if_pos unconsumed, map_some]
    · rw [if_neg notUnconsumed, if_pos ⟨isRead, borrowedRead⟩, map_some]
  · rfl

theorem view_restoreBorrow {bodyTbl : StateTbl}
    (restored : bodyTbl.updateTbl row.name row.state = .ok tbl') :
    restoreBorrow x row.name (tbl.view x) (bodyTbl.view x) = tbl'.view x := by
  rw [view_updateTbl restored, restoreBorrow]
  by_cases sameName : row.name = x
  · subst sameName
    rw [view_row, found, map_some]
    rfl
  · simp only [if_neg sameName]
    split <;> rfl

theorem view_checkBorrowScope {rename : Identifier} (mayBorrow : MayBorrow row mode during)
    (bodyView : ∀ tbl, Shows (StateTbl.view x) (walkBody tbl) (trackBody (tbl.view x))) :
    Shows (StateTbl.view x)
      (checkBorrowScope tbl depth row rename refType event during row.state walkBody)
      (trackBorrow x depth row.name rename refType mode trackBody (tbl.view x)) := by
  refine .after fun _ => .after fun _ => .afterLift fun borrowed marked => ?_
  rw [trackBorrow, view_startBorrow found mayBorrow marked]
  refine view_addEntry.bind fun _ => (bodyView _).bind fun bodyTbl => .after fun _ => ?_
  refine .afterLift fun restored isRestored => ?_
  rw [view_restoreBorrow found isRestored]
  exact view_removeEntry

end

theorem returnable_of_checkReturnRows (checked : checkReturnRows tbl.rows = .ok ()) :
    (tbl.view x).returnable = true := by
  cases found : tbl.getEntry x with
  | none => simp [returnable, StateTbl.view, found]
  | some row =>
    have rowChecked := Comp.forM_eq_ok.mp checked row (mem_of_find?_eq_some found)
    simp only [returnable, StateTbl.view, found, map_some, TableRow.varRow,
      Bool.or_eq_true, decide_eq_true_eq, Bool.not_eq_true']
    unfold checkReturnRow at rowChecked
    by_cases consumed : row.state = .consumed
    · exact .inl (.inl consumed)
    rw [if_neg consumed] at rowChecked
    by_cases writeRef : StateTbl.isWriteRef row.ty = true
    · exact .inl (.inr writeRef)
    rw [if_neg writeRef] at rowChecked
    obtain ⟨linear, known, rowChecked⟩ := Comp.bind_eq_ok.mp rowChecked
    cases linear with
    | true => exact absurd rowChecked Comp.australRaise_ne_ok
    | false => exact .inr (isLinear_of_linearIsh known)

theorem view_checkWhen (bodyView : ∀ tbl, Shows (StateTbl.view x) (checkStmt tbl depth whn.body)
      (track x depth whn.body (tbl.view x))) :
    Shows (StateTbl.view x) (checkWhen tbl depth whn) (trackWhen x depth whn (tbl.view x)) := by
  obtain ⟨_, _, _⟩ := whn
  rw [checkWhen, trackWhen]
  exact view_addBindingEntries.bind fun _ => (bodyView _).bind fun _ =>
    view_removeEntries

theorem view_checkWhens {whens : List (TypedWhen TStmt)}
    (bodyViews : ∀ whn ∈ whens, ∀ tbl, Shows (StateTbl.view x) (checkStmt tbl depth whn.body)
      (track x depth whn.body (tbl.view x))) :
    Shows (List.map (StateTbl.view x)) (checkWhens tbl depth branch arm whens)
      (trackWhens x depth whens (tbl.view x)) := by
  induction whens generalizing arm with
  | nil =>
    rw [checkWhens, trackWhens]
    exact .pure
  | cons whn _ ih =>
    rw [checkWhens, trackWhens]
    refine (view_withArm (view_checkWhen (bodyViews whn mem_cons_self))).bind fun _ => ?_
    exact (ih (forall_mem_cons.mp bodyViews).2).bind fun _ => .pure

theorem view_checkStmt {stmt : TStmt} :
    Shows (StateTbl.view x) (checkStmt tbl depth stmt) (track x depth stmt (tbl.view x)) := by
  induction stmt generalizing tbl depth with rw [checkStmt, track]
  | skip => exact .pure
  | letStmt _ _ _ _ bodyView =>
    exact view_addEntry.bind fun _ => bodyView.bind fun _ => view_removeEntry
  | letTmp => exact view_addEntry.bind fun _ => view_checkExpr
  | assignTmp name =>
    refine view_checkExpr.bind fun readTbl => ?_
    cases found : readTbl.getEntry name with
    | none =>
      have untouched : (if (readTbl.view x).row.isSome then
          whenNamed x name fill (readTbl.view x) else some (readTbl.view x)) =
          some (readTbl.view x) := by
        by_cases sameName : name = x
        · subst sameName
          simp [view_row, found]
        · simp [whenNamed, sameName]
      rw [untouched]
      exact .pure
    | some =>
      by_cases sameName : name = x
      · subst sameName
        rw [if_pos (by simp [view_row, found])]
        exact view_reassign found
      · intro _ _ _ checked
        have assigned := view_reassign (x := x) found checked
        rw [whenNamed, if_neg sameName] at assigned ⊢
        simpa using assigned
  | destructure _ _ _ _ bodyView =>
    exact view_checkExpr.bind fun _ => view_addBindingEntries.bind fun _ =>
      bodyView.bind fun _ => view_removeEntries
  | assign => exact view_checkExpr.bind fun _ => view_checkExpr
  | assignVar =>
    refine view_checkExpr.bind fun readTbl => .afterLift fun row found => ?_
    exact view_reassign (getEntryOrFail_eq_ok.mp found)
  | initialAssign | discarding => exact view_checkExpr
  | ifStmt _ _ _ consequentView alternativeView =>
    refine view_checkExpr.bind fun readTbl => .after fun branch => ?_
    refine (view_withArm consequentView).bind fun trueTbl => ?_
    refine (view_withArm alternativeView).bind fun falseTbl => .afterLift fun _ consistent => ?_
    rw [if_pos (view_tablesAreConsistent consistent)]
    exact .pure
  | caseStmt _ _ _ bodyViews =>
    refine view_checkExpr.bind fun readTbl => .after fun branch => ?_
    refine (view_checkWhens fun whn member _ => bodyViews whn member).bind fun tbls =>
      .afterLift fun _ consistent => ?_
    rw [if_pos (view_tableListIsConsistent consistent)]
    cases tbls <;> exact .pure
  | whileStmt _ _ bodyView =>
    refine view_checkExpr.bind fun readTbl => bodyView.bind fun bodyTbl => .lift ?_
    intro _ passed
    obtain ⟨rfl, noneNew⟩ := view_checkLoopPending (x := x) passed
    rw [noneNew]
    rfl
  | forStmt _ _ _ _ bodyView =>
    refine view_checkExpr.bind fun _ => view_checkExpr.bind fun finalTbl =>
      bodyView.bind fun bodyTbl => .lift ?_
    intro _ passed
    obtain ⟨rfl, noneNew⟩ := view_checkLoopPending (x := x) passed
    rw [noneNew]
    rfl
  | borrow _ _ _ _ _ _ mode bodyView =>
    refine .afterLift fun row found => ?_
    rw [getEntryOrFail_eq_ok] at found
    obtain rfl := name_of_getEntry found
    by_cases unconsumed : row.state = .unconsumed
    · rw [if_pos unconsumed, ← unconsumed]
      exact view_checkBorrowScope found (.inl ⟨unconsumed, rfl⟩) fun _ => bodyView
    rw [if_neg unconsumed]
    by_cases nested : mode = .read ∧ row.state = .borrowedRead
    · rw [if_pos nested, ← nested.2]
      exact view_checkBorrowScope found (.inr ⟨unconsumed, nested.1, nested.2, nested.2⟩)
        fun _ => bodyView
    · rw [if_neg nested]
      exact .raised fun _ => Comp.australRaise_ne_ok
  | block _ _ firstView secondView => exact firstView.bind fun _ => secondView
  | returnStmt =>
    refine view_checkExpr.bind fun readTbl => .afterLift fun _ returned => ?_
    rw [if_pos (returnable_of_checkReturnRows returned)]
    exact .pure

end Statements

end AustralVM
