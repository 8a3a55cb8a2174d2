import AustralVM.OwnershipRuns

/-!
# The flow of ownership through a body

`flow` follows what a linear variable holds through a statement, taking the
first arm of every branch and going through every loop once.  The main theorem
is that the checker's table keeps in step with the flow.  `steady` names what a
body has to do for the flow to be what every run does: the places where the
checker does not look.
-/

namespace AustralVM

open List VarView
open Option (some bind_eq_some_iff isSome_iff_exists map_eq_some_iff)

namespace Holding

def ty? : Holding → Option Ty
  | .untracked => none
  | .empty ty => some ty
  | .held ty => some ty

theorem eq_of_ty?_of_isHeld {first second : Holding} (sameTy : first.ty? = second.ty?)
    (sameHeld : first.isHeld = second.isHeld) : first = second := by
  cases first <;> cases second <;> simp_all [ty?, isHeld]

theorem isTracked_of_ty? {first second : Holding} (sameTy : first.ty? = second.ty?) :
    first.isTracked = second.isTracked := by
  cases first <;> cases second <;> simp_all [ty?, isTracked]

theorem untracked_or_isTracked (holding : Holding) :
    holding = .untracked ∨ holding.isTracked = true := by
  cases holding <;> simp [isTracked]

end Holding

open Holding

/-! ## Flow -/

section Flow

variable (x : Identifier)

def declared (name : Identifier) (ty : Ty) (holding : Holding) : Holding :=
  if name = x then (if isLinear ty then .held ty else .untracked) else holding

def declaredAll (bindings : List TypedBinding) (holding : Holding) : Holding :=
  bindings.foldl (fun holding binding => declared x binding.rename binding.ty holding) holding

def ended (names : List Identifier) (holding : Holding) : Holding :=
  if x ∈ names then .untracked else holding

def spentBy (expr : TExpr) (holding : Holding) : Holding :=
  if count x expr = 0 then holding
  else
    match holding with
    | .held ty => .empty ty
    | holding => holding

def refilled (name : Identifier) (holding : Holding) : Holding :=
  if name = x then
    match holding with
    | .empty ty => .held ty
    | holding => holding
  else
    holding

mutual
def flow : TStmt → Holding → Holding
  | .skip, holding => holding
  | .letStmt _ name ty body, holding => ended x [name] (flow body (declared x name ty holding))
  | .letTmp name ty value, holding => spentBy x value (declared x name ty holding)
  | .assignTmp name value, holding => refilled x name (spentBy x value holding)
  | .destructure _ bindings value body, holding =>
    ended x (bindings.map TypedBinding.rename)
      (flow body (declaredAll x bindings (spentBy x value holding)))
  | .assign lvalue value, holding => spentBy x value (spentBy x lvalue holding)
  | .assignVar name value, holding => refilled x name.localName (spentBy x value holding)
  | .initialAssign _ value, holding => spentBy x value holding
  | .ifStmt condition consequent _, holding =>
    ended x (temporaries consequent) (flow consequent (spentBy x condition holding))
  | .caseStmt scrutinee whens _, holding => flowWhens whens (spentBy x scrutinee holding)
  | .whileStmt condition body, holding =>
    ended x (temporaries body) (flow body (spentBy x condition holding))
  | .forStmt _ start final body, holding =>
    ended x (temporaries body) (flow body (spentBy x final (spentBy x start holding)))
  | .borrow _ rename _ _ refType body _, holding =>
    ended x [rename] (flow body (declared x rename refType holding))
  | .block first second, holding => flow second (flow first holding)
  | .discarding value, holding => spentBy x value holding
  | .returnStmt value, holding => spentBy x value holding
def flowWhens : List (TypedWhen TStmt) → Holding → Holding
  | [], holding => holding
  | whn :: _, holding => flowWhen whn holding
def flowWhen : TypedWhen TStmt → Holding → Holding
  | ⟨_, bindings, body⟩, holding =>
    ended x (temporaries body) (ended x (bindings.map TypedBinding.rename)
      (flow body (declaredAll x bindings holding)))
end

/-! ## Steady bodies -/

/-- Where losses count, a tracked variable appears in no operand that may be
left unevaluated. -/
def steadyExpr (losses : Bool) (expr : TExpr) (holding : Holding) : Bool :=
  !losses || !holding.isTracked || count x expr ≤ unconditional x expr

/-- Where losses count, no temporary has a value at the end of the block that
declares it. -/
def steadyEnd (losses : Bool) (block : TStmt) (holding : Holding) : Bool :=
  !losses || x ∉ temporaries block || !holding.losing

/-- A loop body does not give a value to a variable that had none before it. -/
def steadyLoop (before after : Holding) : Bool :=
  !before.isTracked || before.isHeld || !after.isHeld

/-- A case with more than two arms leaves the variable alike in all of them. -/
def steadyArms (whens : List (TypedWhen TStmt)) (holding : Holding) : Bool :=
  whens.length ≤ 2 ||
    whens.all fun whn => (flowWhen x whn holding).isHeld = (flowWhens x whens holding).isHeld

mutual
/-- What a statement has to do for the flow of a variable to be what every run
does.  With `uninit` the variable has just been declared by a let, and the
statement has to begin with its initial assignment. -/
def steady (losses : Bool) : Bool → TStmt → Holding → Bool
  | uninit, .initialAssign name value, holding =>
    if uninit then
      name.localName = x && count x value = 0
    else
      (!losses || name.localName ≠ x || !holding.isTracked) &&
        steadyExpr x losses value holding
  | uninit, .block first second, holding =>
    steady losses uninit first holding && steady losses false second (flow x first holding)
  | uninit, .borrow original rename _ _ refType body _, holding =>
    (!uninit || original ≠ x) && steady losses uninit body (declared x rename refType holding)
  | uninit, .skip, _ => !uninit
  | uninit, .letStmt _ name ty body, holding =>
    !uninit && steady losses (name = x && isLinear ty) body (declared x name ty holding)
  | uninit, .letTmp name ty value, holding =>
    !uninit && (name ≠ x || !isLinear ty || count x value = 0) &&
      steadyExpr x losses value (declared x name ty holding)
  | uninit, .assignTmp _ value, holding => !uninit && steadyExpr x losses value holding
  | uninit, .destructure _ bindings value body, holding =>
    !uninit && steadyExpr x losses value holding &&
      steady losses false body (declaredAll x bindings (spentBy x value holding))
  | uninit, .assign lvalue value, holding =>
    !uninit && steadyExpr x losses lvalue holding &&
      steadyExpr x losses value (spentBy x lvalue holding)
  | uninit, .assignVar _ value, holding => !uninit && steadyExpr x losses value holding
  | uninit, .ifStmt condition consequent alternative, holding =>
    !uninit && steadyExpr x losses condition holding &&
      steady losses false consequent (spentBy x condition holding) &&
      steady losses false alternative (spentBy x condition holding) &&
      steadyEnd x losses consequent (flow x consequent (spentBy x condition holding)) &&
      steadyEnd x losses alternative (flow x alternative (spentBy x condition holding))
  | uninit, .caseStmt scrutinee whens _, holding =>
    !uninit && steadyExpr x losses scrutinee holding &&
      steadyWhens losses whens (spentBy x scrutinee holding) &&
      steadyArms x whens (spentBy x scrutinee holding)
  | uninit, .whileStmt condition body, holding =>
    !uninit && (!holding.isTracked || count x condition = 0) &&
      steady losses false body (spentBy x condition holding) &&
      steadyEnd x losses body (flow x body (spentBy x condition holding)) &&
      steadyLoop (spentBy x condition holding) (flow x body (spentBy x condition holding))
  | uninit, .forStmt _ start final body, holding =>
    !uninit && steadyExpr x losses start holding &&
      steadyExpr x losses final (spentBy x start holding) &&
      steady losses false body (spentBy x final (spentBy x start holding)) &&
      steadyEnd x losses body (flow x body (spentBy x final (spentBy x start holding))) &&
      steadyLoop (spentBy x final (spentBy x start holding))
        (flow x body (spentBy x final (spentBy x start holding)))
  | uninit, .discarding value, holding => !uninit && steadyExpr x losses value holding
  | uninit, .returnStmt value, holding => !uninit && steadyExpr x losses value holding
def steadyWhens (losses : Bool) : List (TypedWhen TStmt) → Holding → Bool
  | [], _ => true
  | whn :: whens, holding => steadyWhen losses whn holding && steadyWhens losses whens holding
def steadyWhen (losses : Bool) : TypedWhen TStmt → Holding → Bool
  | ⟨_, bindings, body⟩, holding =>
    steady losses false body (declaredAll x bindings holding) &&
      steadyEnd x losses body (flow x body (declaredAll x bindings holding))
end

end Flow

/-! ## A variable in scope stays in scope -/

def VarState.isBorrowed : VarState → Bool
  | .borrowedRead | .borrowedWrite => true
  | .unconsumed | .consumed => false

/-- A row persists: the variable keeps its type and its depth; if it was
declared outside the loops around it, it does not end up consumed without being
pending unless it was so before; and if it is borrowed before or after, it is
borrowed alike. -/
def Persists (depth : Nat) (view view' : VarView) : Prop :=
  ∀ row, view.row = some row → ∃ state, view'.row = some { row with state := state } ∧
    (row.depth < depth → state = .consumed → view'.pending = false →
      row.state = .consumed ∧ view.pending = false) ∧
    (row.state.isBorrowed = true ∨ state.isBorrowed = true → state = row.state)

namespace Persists

variable {depth : Nat} {view view' view'' : VarView}

theorem refl (view : VarView) : Persists depth view view :=
  fun row present =>
    ⟨row.state, present, fun _ consumed unmarked => ⟨consumed, unmarked⟩, fun _ => rfl⟩

theorem trans (first : Persists depth view view') (second : Persists depth view' view'') :
    Persists depth view view'' := by
  intro row present
  obtain ⟨_, present', unmarked', borrowed'⟩ := first row present
  obtain ⟨state', present'', unmarked'', borrowed''⟩ := second _ present'
  refine ⟨state', present'', fun outer consumed notPending => ?_, ?_⟩
  · obtain ⟨consumed', notPending'⟩ := unmarked'' outer consumed notPending
    exact unmarked' outer consumed' notPending'
  · rintro (before | after)
    · obtain rfl := borrowed' (.inl before)
      exact borrowed'' (.inl before)
    · obtain rfl := borrowed'' (.inr after)
      exact borrowed' (.inr after)

theorem of_succ (deeper : Persists (depth + 1) view view') : Persists depth view view' := by
  intro row present
  obtain ⟨state, present', unmarked, borrowed⟩ := deeper row present
  exact ⟨state, present', fun outer => unmarked (Nat.lt_succ_of_lt outer), borrowed⟩

theorem row_isSome (persists : Persists depth view view') (present : view.row.isSome = true) :
    view'.row.isSome = true := by
  obtain ⟨row, rowEq⟩ := isSome_iff_exists.mp present
  obtain ⟨_, rowEq', _⟩ := persists row rowEq
  simp [rowEq']

end Persists

section Persistence

variable {x name original : Identifier} {depth : Nat} {view view' : VarView}

theorem ne_of_enter (present : view.row.isSome = true)
    (entered : whenNamed x name (enter ty depth) view = some view') : name ≠ x ∧ view' = view := by
  rw [whenNamed] at entered
  split at entered
  · simp [(enter_eq_some entered).1] at present
  · rename_i differentName
    exact ⟨differentName, (some.inj entered).symm⟩

theorem not_mem_of_trackBindings (present : view.row.isSome = true)
    (entered : trackBindings x depth bindings view = some view') :
    x ∉ bindings.map TypedBinding.rename ∧ view' = view := by
  induction bindings generalizing view with
  | nil =>
    cases entered
    exact ⟨by simp, rfl⟩
  | cons _ _ ih =>
    rw [trackBindings, foldlM_cons] at entered
    obtain ⟨_, enteredFirst, enteredRest⟩ := bind_eq_some_iff.mp entered
    obtain ⟨differentName, rfl⟩ := ne_of_enter present enteredFirst
    obtain ⟨notInRest, rfl⟩ := ih present enteredRest
    exact ⟨by simp [Ne.symm differentName] at notInRest ⊢; exact notInRest, rfl⟩

theorem eq_of_leave (differentName : name ≠ x)
    (left : whenNamed x name leave view = some view') : view' = view := by
  rw [whenNamed, if_neg differentName] at left
  exact (some.inj left).symm

theorem eq_of_trackLeaving (notMember : x ∉ names) (left : trackLeaving x names view = some view') :
    view' = view := by
  induction names generalizing view with
  | nil =>
    cases left
    rfl
  | cons _ _ ih =>
    rw [trackLeaving, foldlM_cons] at left
    obtain ⟨_, leftFirst, leftRest⟩ := bind_eq_some_iff.mp left
    rw [mem_cons, not_or] at notMember
    obtain rfl := eq_of_leave (Ne.symm notMember.1) leftFirst
    exact ih notMember.2 leftRest

theorem eq_of_read_zero (read : view.read depth 0 = some view') : view' = view := by
  unfold VarView.read at read
  split at read
  · exact (some.inj read).symm
  · rw [if_pos (.inl rfl)] at read
    exact (some.inj read).symm

theorem persists_read (read : view.read depth appearances = some view') :
    Persists depth view view' := by
  intro row present
  simp only [VarView.read, present] at read
  split at read
  · cases read
    exact Persists.refl view row present
  split at read
  · rename_i unconsumed
    split at read
    · rename_i sameDepth
      cases read
      exact ⟨.consumed, rfl, fun outer => absurd outer (by omega),
        by simp [unconsumed.1, VarState.isBorrowed]⟩
    · split at read
      · cases read
      · cases read
        exact ⟨.consumed, rfl, fun _ _ => nofun, by simp [unconsumed.1, VarState.isBorrowed]⟩
  · cases read

theorem persists_fill (filled : whenNamed x name fill view = some view') :
    Persists depth view view' := by
  rw [whenNamed] at filled
  split at filled
  · intro row present
    simp only [fill, present] at filled
    split at filled
    · rename_i isConsumed
      cases filled
      exact ⟨.unconsumed, rfl, fun _ => nofun, by simp [isConsumed, VarState.isBorrowed]⟩
    split at filled
    · cases filled
    · cases filled
      exact Persists.refl view row present
  · cases filled
    exact Persists.refl view

@[simp]
theorem ty?_spentBy (expr : TExpr) (holding : Holding) :
    (spentBy x expr holding).ty? = holding.ty? := by
  unfold spentBy
  split
  · rfl
  · cases holding <;> rfl

theorem isTracked_spentBy (expr : TExpr) (holding : Holding) :
    (spentBy x expr holding).isTracked = holding.isTracked :=
  isTracked_of_ty? (ty?_spentBy expr holding)

@[simp]
theorem ty?_refilled (name : Identifier) (holding : Holding) :
    (refilled x name holding).ty? = holding.ty? := by
  unfold refilled
  split
  · cases holding <;> rfl
  · rfl

theorem spentBy_of_zero (unread : count x expr = 0) (holding : Holding) :
    spentBy x expr holding = holding :=
  if_pos unread

theorem spentBy_held (readBy : count x expr ≠ 0) (ty : Ty) :
    spentBy x expr (.held ty) = .empty ty :=
  if_neg readBy

theorem refilled_empty (ty : Ty) : refilled x x (.empty ty) = .held ty :=
  if_pos rfl

theorem refilled_of_ne (differentName : name ≠ x) (holding : Holding) :
    refilled x name holding = holding :=
  if_neg differentName

theorem declared_of_ne (differentName : name ≠ x) (holding : Holding) :
    declared x name ty holding = holding :=
  if_neg differentName

theorem declaredAll_of_not_mem (notMember : x ∉ bindings.map TypedBinding.rename)
    (holding : Holding) : declaredAll x bindings holding = holding := by
  induction bindings with
  | nil => rfl
  | cons _ _ ih =>
    rw [map_cons, mem_cons, not_or] at notMember
    rw [declaredAll, foldl_cons, declared_of_ne (Ne.symm notMember.1)]
    exact ih notMember.2

theorem ended_of_not_mem (notMember : x ∉ names) (holding : Holding) :
    ended x names holding = holding :=
  if_neg notMember

/-- What `track` keeps of a variable in scope. -/
structure StaysInScope (x : Identifier) (depth : Nat) (stmt : TStmt) (view view' : VarView) :
    Prop where
  persists : Persists depth view view'
  notTemporary : x ∉ temporaries stmt
  keepsType : ∀ holding, (flow x stmt holding).ty? = holding.ty?

theorem StaysInScope.isTracked (stays : StaysInScope x depth stmt view view')
    (holding : Holding) : (flow x stmt holding).isTracked = holding.isTracked :=
  isTracked_of_ty? (stays.keepsType holding)

theorem body_of_scope (present : view.row.isSome = true)
    (scope : TracksScope x depth bindings body view view') :
    x ∉ bindings.map TypedBinding.rename ∧ track x depth body view = some view' := by
  obtain ⟨_, _, enteredEq, bodyEq, leftEq⟩ := scope
  obtain ⟨notBound, rfl⟩ := not_mem_of_trackBindings present enteredEq
  obtain rfl := eq_of_trackLeaving notBound leftEq
  exact ⟨notBound, bodyEq⟩

theorem StaysInScope.ty?_scope (stays : StaysInScope x depth body view view')
    (notBound : x ∉ bindings.map TypedBinding.rename) (holding : Holding) :
    (ended x (bindings.map TypedBinding.rename)
      (flow x body (declaredAll x bindings holding))).ty? = holding.ty? := by
  rw [ended_of_not_mem notBound, declaredAll_of_not_mem notBound]
  exact stays.keepsType holding

theorem staysInScope_when (present : view.row.isSome = true)
    (bodyStays : track x depth whn.body view = some view' →
      StaysInScope x depth whn.body view view')
    (tracked : trackWhen x depth whn view = some view') :
    Persists depth view view' ∧ ∀ holding, (flowWhen x whn holding).ty? = holding.ty? := by
  obtain ⟨notBound, bodyEq⟩ := body_of_scope present (track_when tracked)
  have stays := bodyStays bodyEq
  obtain ⟨_, _, _⟩ := whn
  refine ⟨stays.persists, fun holding => ?_⟩
  rw [flowWhen, ended_of_not_mem stays.notTemporary, stays.ty?_scope notBound]

theorem restoreBorrow_of_ne (notOriginal : original ≠ x) :
    restoreBorrow x original view bodyView = bodyView := by
  cases present : view.row <;> simp [restoreBorrow, present, notOriginal]

theorem isSome_row_startBorrow (startEq : startBorrow x original mode view = some during) :
    during.row.isSome = view.row.isSome := by
  rw [startBorrow] at startEq
  split at startEq
  · obtain ⟨_, _, rfl⟩ := map_eq_some_iff.mp startEq
    simp [VarView.set]
  · rw [← some.inj startEq]

theorem persists_borrow (startEq : startBorrow x original mode view = some during)
    (inside : Persists depth during bodyView) :
    Persists depth view (restoreBorrow x original view bodyView) := by
  by_cases isOriginal : original = x
  · rw [startBorrow, if_pos isOriginal] at startEq
    obtain ⟨state, borrowEq, rfl⟩ := map_eq_some_iff.mp startEq
    intro row present
    obtain ⟨_, bodyRow, _⟩ := inside { row with state := state }
      (by simp [VarView.set, present])
    refine ⟨row.state, by simp [restoreBorrow, present, isOriginal, VarView.set, bodyRow], ?_,
      fun _ => rfl⟩
    intro _ consumed _
    -- A consumed variable is not borrowed.
    simp [borrow, present, consumed] at borrowEq
  · rw [startBorrow, if_neg isOriginal] at startEq
    rw [restoreBorrow_of_ne isOriginal]
    rwa [some.inj startEq]

theorem staysInScope_of_read (read : view.read depth appearances = some view')
    (notTemporary : x ∉ temporaries stmt)
    (keepsType : ∀ holding, (flow x stmt holding).ty? = holding.ty?) :
    StaysInScope x depth stmt view view' :=
  ⟨persists_read read, notTemporary, keepsType⟩

theorem head_trackWhens (tracked : trackWhens x depth whens view = some views) :
    (whens = [] ∧ views.headD view = view) ∨ ∃ whn ∈ whens, whens.head? = some whn ∧
        trackWhen x depth whn view = some (views.headD view) := by
  cases whens with
  | nil =>
    cases tracked
    exact .inl ⟨rfl, rfl⟩
  | cons whn =>
    rw [trackWhens] at tracked
    obtain ⟨_, firstEq, tracked⟩ := bind_eq_some_iff.mp tracked
    obtain ⟨_, _, tracked⟩ := bind_eq_some_iff.mp tracked
    cases tracked
    exact .inr ⟨whn, mem_cons_self, rfl, firstEq⟩

theorem ty?_flowWhens (holding : Holding)
    (each : ∀ whn, whens.head? = some whn → (flowWhen x whn holding).ty? = holding.ty?) :
    (flowWhens x whens holding).ty? = holding.ty? := by
  cases whens with
  | nil => rfl
  | cons whn => exact each whn rfl

theorem staysInScope_track (present : view.row.isSome = true)
    (tracked : track x depth stmt view = some view') : StaysInScope x depth stmt view view' := by
  induction stmt generalizing depth view view' with
  | skip =>
    cases tracked
    exact ⟨Persists.refl view, by simp [temporaries], fun _ => rfl⟩
  | letStmt _ _ _ _ ih =>
    obtain ⟨notBound, bodyEq⟩ := body_of_scope present (track_letStmt tracked)
    have stays := ih present bodyEq
    exact ⟨stays.persists, stays.notTemporary, stays.ty?_scope notBound⟩
  | letTmp =>
    obtain ⟨_, enteredEq, read⟩ := track_letTmp tracked
    obtain ⟨differentName, rfl⟩ := ne_of_enter present enteredEq
    refine ⟨persists_read read, by simpa [temporaries] using Ne.symm differentName, ?_⟩
    simp [flow, declared_of_ne differentName]
  | assignTmp =>
    obtain ⟨_, read, filled, _⟩ := track_assignTmp tracked
    have readPresent := (persists_read read).row_isSome present
    exact ⟨(persists_read read).trans (persists_fill (filled readPresent)),
      by simp [temporaries], by simp [flow]⟩
  | destructure _ _ _ _ ih =>
    obtain ⟨_, read, scope⟩ := track_destructure tracked
    have readPresent := (persists_read read).row_isSome present
    obtain ⟨notBound, bodyEq⟩ := body_of_scope readPresent scope
    have stays := ih readPresent bodyEq
    refine ⟨(persists_read read).trans stays.persists, stays.notTemporary, fun holding => ?_⟩
    rw [flow, stays.ty?_scope notBound, ty?_spentBy]
  | assign =>
    obtain ⟨_, readLvalue, readValue⟩ := track_assign tracked
    exact ⟨(persists_read readLvalue).trans (persists_read readValue), by simp [temporaries],
      by simp [flow]⟩
  | assignVar =>
    obtain ⟨_, read, filled⟩ := track_assignVar tracked
    exact ⟨(persists_read read).trans (persists_fill filled), by simp [temporaries],
      by simp [flow]⟩
  | initialAssign | discarding =>
    rw [track] at tracked
    exact staysInScope_of_read tracked (by simp [temporaries]) (by simp [flow])
  | ifStmt _ _ _ ih =>
    obtain ⟨_, _, read, trueEq, _⟩ := track_ifStmt tracked
    have stays := ih ((persists_read read).row_isSome present) trueEq
    refine ⟨(persists_read read).trans stays.persists, by simp [temporaries], fun holding => ?_⟩
    rw [flow, ended_of_not_mem stays.notTemporary, stays.keepsType, ty?_spentBy]
  | caseStmt _ _ _ ih =>
    obtain ⟨_, _, read, viewsEq, _, rfl⟩ := track_caseStmt tracked
    have readPresent := (persists_read read).row_isSome present
    rcases head_trackWhens viewsEq with ⟨rfl, headEq⟩ | ⟨whn, member, isHead, headEq⟩
    · rw [headEq]
      exact staysInScope_of_read read (by simp [temporaries]) (by simp [flow, flowWhens])
    · obtain ⟨armPersists, keepsType⟩ :=
        staysInScope_when readPresent (ih whn member readPresent) headEq
      refine ⟨(persists_read read).trans armPersists, by simp [temporaries], fun holding => ?_⟩
      rw [flow, ty?_flowWhens, ty?_spentBy]
      intro other isHead'
      obtain rfl : whn = other := some.inj (isHead.symm.trans isHead')
      exact keepsType _
  | whileStmt _ _ ih =>
    obtain ⟨_, read, bodyEq, _⟩ := track_whileStmt tracked
    have stays := ih ((persists_read read).row_isSome present) bodyEq
    refine ⟨(persists_read read).trans stays.persists.of_succ, by simp [temporaries],
      fun holding => ?_⟩
    rw [flow, ended_of_not_mem stays.notTemporary, stays.keepsType, ty?_spentBy]
  | forStmt _ _ _ _ ih =>
    obtain ⟨_, _, readStart, readFinal, bodyEq, _⟩ := track_forStmt tracked
    have readBoth := (persists_read readStart).trans (persists_read readFinal)
    have stays := ih (readBoth.row_isSome present) bodyEq
    refine ⟨readBoth.trans stays.persists.of_succ, by simp [temporaries], fun holding => ?_⟩
    rw [flow, ended_of_not_mem stays.notTemporary, stays.keepsType, ty?_spentBy, ty?_spentBy]
  | borrow _ _ _ _ _ _ _ ih =>
    obtain ⟨during, _, _, startEq, enteredEq, bodyEq, leftEq⟩ := track_borrow tracked
    have duringPresent : during.row.isSome = true := by rw [isSome_row_startBorrow startEq, present]
    obtain ⟨differentName, rfl⟩ := ne_of_enter duringPresent enteredEq
    obtain rfl := eq_of_leave differentName leftEq
    have stays := ih duringPresent bodyEq
    refine ⟨persists_borrow startEq stays.persists, stays.notTemporary, fun holding => ?_⟩
    rw [flow, ended_of_not_mem (by simpa using Ne.symm differentName), declared_of_ne differentName]
    exact stays.keepsType holding
  | block _ _ ihFirst ihSecond =>
    obtain ⟨_, firstEq, secondEq⟩ := track_block tracked
    have staysFirst := ihFirst present firstEq
    have staysSecond := ihSecond (staysFirst.persists.row_isSome present) secondEq
    refine ⟨staysFirst.persists.trans staysSecond.persists, ?_, fun holding => ?_⟩
    · simp [temporaries, staysFirst.notTemporary, staysSecond.notTemporary]
    · rw [flow, staysSecond.keepsType, staysFirst.keepsType]
  | returnStmt =>
    exact staysInScope_of_read (track_returnStmt tracked).1 (by simp [temporaries])
      (by simp [flow])

end Persistence

/-! ## A name that is not tracked -/

section Untracked

variable {x : Identifier}

theorem ended_of_mem (member : x ∈ names) (holding : Holding) :
    ended x names holding = .untracked :=
  if_pos member

@[simp]
theorem spentBy_untracked (expr : TExpr) : spentBy x expr .untracked = .untracked := by
  simp [spentBy]

@[simp]
theorem refilled_untracked (name : Identifier) : refilled x name .untracked = .untracked := by
  simp [refilled]

@[simp]
theorem ended_untracked (names : List Identifier) : ended x names .untracked = .untracked := by
  simp [ended]

theorem flow_untracked (notTemporary : x ∉ temporaries stmt) :
    flow x stmt .untracked = .untracked := by
  induction stmt with
  | letStmt _ name _ _ ih | borrow _ name _ _ _ _ _ ih =>
    rw [flow]
    by_cases sameName : name = x
    · simp [ended, sameName]
    · rw [declared_of_ne sameName, ih (by simpa [temporaries] using notTemporary),
        ended_untracked]
  | destructure _ bindings _ _ ih =>
    rw [flow, spentBy_untracked]
    by_cases bound : x ∈ bindings.map TypedBinding.rename
    · exact if_pos bound
    · rw [declaredAll_of_not_mem bound, ih (by simpa [temporaries] using notTemporary),
        ended_untracked]
  | ifStmt _ consequent _ ih =>
    rw [flow, spentBy_untracked]
    by_cases inArm : x ∈ temporaries consequent
    · exact if_pos inArm
    · rw [ih inArm, ended_untracked]
  | caseStmt _ whens _ ih =>
    rw [flow, spentBy_untracked]
    cases whens with
    | nil => rfl
    | cons whn =>
      have bodyFlow := ih whn mem_cons_self
      obtain ⟨_, bindings, body⟩ := whn
      rw [flowWhens, flowWhen]
      by_cases inArm : x ∈ temporaries body
      · exact if_pos inArm
      by_cases bound : x ∈ bindings.map TypedBinding.rename
      · rw [ended_of_mem bound, ended_untracked]
      · rw [declaredAll_of_not_mem bound, bodyFlow inArm, ended_untracked, ended_untracked]
  | whileStmt _ body ih | forStmt _ _ _ body ih =>
    simp only [flow, spentBy_untracked]
    by_cases inBody : x ∈ temporaries body
    · exact if_pos inBody
    · rw [ih inBody, ended_untracked]
  | block _ _ ihFirst ihSecond =>
    simp only [temporaries, mem_append, not_or] at notTemporary
    rw [flow, ihFirst notTemporary.1, ihSecond notTemporary.2]
  | letTmp =>
    rw [flow, declared_of_ne (by simpa [temporaries, eq_comm] using notTemporary),
      spentBy_untracked]
  | _ => simp [flow]

theorem flow_ended_untracked (stmt : TStmt) :
    ended x (temporaries stmt) (flow x stmt .untracked) = .untracked := by
  by_cases inStmt : x ∈ temporaries stmt
  · exact if_pos inStmt
  · rw [flow_untracked inStmt, ended_untracked]

theorem flowWhen_untracked (whn : TypedWhen TStmt) : flowWhen x whn .untracked = .untracked := by
  obtain ⟨_, bindings, _⟩ := whn
  rw [flowWhen]
  by_cases bound : x ∈ bindings.map TypedBinding.rename
  · rw [ended_of_mem bound, ended_untracked]
  · rw [declaredAll_of_not_mem bound, ended_of_not_mem bound, flow_ended_untracked]

end Untracked

/-! ## The table keeps in step with the flow -/

/-- The view of a variable and what the flow says it holds. -/
inductive InStep (depth : Nat) (view : VarView) : Holding → Prop
  | untracked : ((∀ row, view.row = some row → isLinear row.ty = false) →
      view.pending = false) → InStep depth view .untracked
  | held {row : VarRow} {ty : Ty} : view.row = some row → row.ty = ty → isLinear ty = true →
      row.state ≠ .consumed → row.depth ≤ depth → view.pending = false →
      InStep depth view (.held ty)
  | empty {row : VarRow} {ty : Ty} : view.row = some row → row.ty = ty → isLinear ty = true →
      row.state = .consumed → row.depth ≤ depth →
      (view.pending = true → row.depth < depth) → InStep depth view (.empty ty)

namespace InStep

variable {x name : Identifier} {depth : Nat} {view view' : VarView} {holding : Holding}
  {row : VarRow}

theorem row_isSome (inStep : InStep depth view holding) (tracked : holding.isTracked = true) :
    view.row.isSome = true := by
  cases inStep with
  | untracked => cases tracked
  | held present => simp [present]
  | empty present => simp [present]

section

variable (inStep : InStep depth view holding)
include inStep

theorem of_row (tracked : holding.isTracked = true) (present : view.row = some row) :
    isLinear row.ty = true ∧ row.depth ≤ depth ∧ (view.pending = true → row.depth < depth) ∧
      holding.isHeld = decide (row.state ≠ .consumed) := by
  cases inStep with
  | untracked => cases tracked
  | held present' sameTy linear state outer unmarked =>
    cases present.symm.trans present'
    exact ⟨sameTy ▸ linear, outer, by simp [unmarked], by simp [isHeld, state]⟩
  | empty present' sameTy linear state outer marked =>
    cases present.symm.trans present'
    exact ⟨sameTy ▸ linear, outer, marked, by simp [isHeld, state]⟩

theorem succ : InStep (depth + 1) view holding := by
  cases inStep with
  | untracked unmarked => exact .untracked unmarked
  | held present sameTy linear notConsumed _ unmarked =>
    exact .held present sameTy linear notConsumed (by omega) unmarked
  | empty present sameTy linear consumed _ marked =>
    exact .empty present sameTy linear consumed (by omega) fun pending => by
      have := marked pending
      omega

theorem not_pending (noLinear : ∀ row, view.row = some row → isLinear row.ty = false) :
    view.pending = false := by
  cases inStep with
  | untracked unmarked => exact unmarked noLinear
  | held _ _ _ _ _ unmarked => exact unmarked
  | empty present sameTy linear =>
    rw [← sameTy, noLinear _ present] at linear
    cases linear

end

theorem enter (inStep : InStep depth view holding)
    (entered : whenNamed x name (enter ty depth) view = some view') :
    InStep depth view' (declared x name ty holding) := by
  rw [whenNamed] at entered
  rw [declared]
  split at entered
  · rename_i sameName
    rw [if_pos sameName]
    obtain ⟨absent, rfl⟩ := enter_eq_some entered
    have unmarked := inStep.not_pending (by simp [absent])
    split
    · rename_i linear
      exact .held rfl rfl linear (by simp) (Nat.le_refl _) unmarked
    · exact .untracked fun _ => unmarked
  · rename_i differentName
    rw [if_neg differentName]
    cases entered
    exact inStep

theorem enterAll (inStep : InStep depth view holding)
    (entered : trackBindings x depth bindings view = some view') :
    InStep depth view' (declaredAll x bindings holding) := by
  induction bindings generalizing view holding with
  | nil =>
    cases entered
    exact inStep
  | cons _ _ ih =>
    rw [trackBindings, foldlM_cons] at entered
    obtain ⟨_, enteredFirst, enteredRest⟩ := bind_eq_some_iff.mp entered
    exact ih (inStep.enter enteredFirst) enteredRest

theorem untracked_read
    (unmarked : (∀ row, view.row = some row → isLinear row.ty = false) → view.pending = false)
    (readTo : view.read depth appearances = some view') : InStep depth view' .untracked := by
  refine .untracked fun noLinear => ?_
  cases present : view.row with
  | none =>
    simp only [VarView.read, present, some.injEq] at readTo
    subst readTo
    exact unmarked noLinear
  | some row =>
    obtain ⟨state, present', _⟩ := persists_read readTo row present
    have free : isLinear row.ty = false := noLinear { row with state := state } present'
    simp only [VarView.read, present, free, or_true, if_true, some.injEq] at readTo
    subst readTo
    exact unmarked noLinear

variable (inStep : InStep depth view holding)
include inStep

theorem read (readTo : view.read depth (count x expr) = some view') :
    InStep depth view' (spentBy x expr holding) := by
  by_cases noEffect : count x expr = 0
  · rw [spentBy_of_zero noEffect]
    rw [noEffect] at readTo
    rw [eq_of_read_zero readTo]
    exact inStep
  · cases inStep with
    | untracked unmarked =>
      rw [spentBy_untracked]
      exact untracked_read unmarked readTo
    | @held row _ present sameTy linear _ outer unmarked =>
      subst sameTy
      rw [spentBy_held noEffect]
      simp only [VarView.read, present, linear, noEffect, or_self, if_false, reduceCtorEq] at readTo
      split at readTo
      · split at readTo
        · cases readTo
          exact .empty rfl rfl linear rfl outer fun pending => by simp [unmarked] at pending
        · split at readTo
          · cases readTo
          · cases readTo
            refine .empty rfl rfl linear rfl outer fun _ => ?_
            show row.depth < depth
            omega
      · cases readTo
    | empty present sameTy linear consumed =>
      subst sameTy
      simp [VarView.read, present, linear, noEffect, consumed] at readTo

theorem fill (filled : whenNamed x name fill view = some view') :
    InStep depth view' (refilled x name holding) := by
  rw [whenNamed] at filled
  split at filled
  · rename_i sameName
    subst sameName
    cases inStep with
    | untracked unmarked =>
      rw [refilled_untracked]
      refine .untracked fun noLinear => ?_
      unfold fill at filled
      split at filled
      · cases filled
      · split at filled
        · cases filled
          rfl
        · split at filled
          · cases filled
          · cases filled
            exact unmarked noLinear
    | held present sameTy linear notConsumed =>
      subst sameTy
      simp [fill, present, notConsumed, linear] at filled
    | @empty row _ present sameTy linear consumed outer marked =>
      simp only [fill, present, if_pos consumed, some.injEq] at filled
      subst filled
      rw [refilled_empty]
      exact .held rfl sameTy linear (by simp) outer rfl
  · rename_i differentName
    rw [refilled_of_ne differentName]
    cases filled
    exact inStep

theorem refilled_absent (absent : ¬ view.row.isSome = true) :
    InStep depth view (refilled x name holding) := by
  have notTracked : holding = .untracked := by
    cases inStep with
    | untracked => rfl
    | held present | empty present => simp [present] at absent
  rw [notTracked, refilled_untracked]
  rwa [notTracked] at inStep

theorem set (borrowable : ∀ row, view.row = some row → row.state ≠ .consumed)
    (notConsumed : state ≠ .consumed) : InStep depth (view.set state) holding := by
  cases inStep with
  | untracked unmarked =>
    refine .untracked fun noLinear => unmarked fun row present => ?_
    exact noLinear { row with state := state } (by simp [VarView.set, present])
  | @held row _ present sameTy linear _ outer unmarked =>
    have present' : (view.set state).row = some { row with state := state } := by
      simp [VarView.set, present]
    exact .held present' sameTy linear notConsumed outer unmarked
  | @empty row _ present _ _ consumed => exact absurd consumed (borrowable row present)

theorem ended (names : List Identifier) : InStep depth view (AustralVM.ended x names holding) := by
  by_cases member : x ∈ names
  · rw [ended_of_mem member]
    exact .untracked inStep.not_pending
  · rwa [ended_of_not_mem member]

theorem leave (present : view.row = some row) (declaredHere : row.depth = depth)
    (trackedIfLinear : isLinear row.ty = true → holding.isTracked = true)
    (left : view.leave = some view') : InStep depth view' .untracked := by
  have unmarked : view.pending = false := by
    by_cases linear : isLinear row.ty = true
    · by_contra pending
      have := (inStep.of_row (trackedIfLinear linear) present).2.2.1 (by simpa using pending)
      omega
    · refine inStep.not_pending fun row' present' => ?_
      rw [← some.inj (present.symm.trans present')]
      simpa using linear
  simp only [VarView.leave, present] at left
  split at left
  · cases left
    exact .untracked fun _ => unmarked
  · cases left

end InStep

section Steps

variable {x original : Identifier} {depth : Nat} {view view' entered bodyView during : VarView}
  {holding : Holding} {body : TStmt} {mode : BorrowStmtKind} {whn : TypedWhen TStmt}
  {whens : List (TypedWhen TStmt)} {views : List VarView}

/-- The row of a variable that has just come into scope. -/
def freshRow (ty : Ty) (depth : Nat) : VarRow := ⟨ty, depth, .unconsumed⟩

theorem entered_of_mem (member : x ∈ bindings.map TypedBinding.rename)
    (entered : trackBindings x depth bindings view = some view') :
    ∃ ty, view'.row = some (freshRow ty depth) ∧
      ∀ holding, declaredAll x bindings holding = if isLinear ty then .held ty else .untracked := by
  induction bindings generalizing view with
  | nil => simp at member
  | cons binding _ ih =>
    rw [trackBindings, foldlM_cons] at entered
    obtain ⟨_, enteredFirst, enteredRest⟩ := bind_eq_some_iff.mp entered
    by_cases sameName : binding.rename = x
    · rw [whenNamed, if_pos sameName] at enteredFirst
      obtain ⟨_, rfl⟩ := enter_eq_some enteredFirst
      obtain ⟨notInRest, rfl⟩ := not_mem_of_trackBindings rfl enteredRest
      refine ⟨binding.ty, rfl, fun holding => ?_⟩
      rw [declaredAll, foldl_cons]
      refine (declaredAll_of_not_mem notInRest _).trans ?_
      rw [declared, if_pos sameName]
    · rw [map_cons, mem_cons] at member
      obtain ⟨ty, rowEq, declaredEq⟩ := ih (member.resolve_left (Ne.symm sameName)) enteredRest
      exact ⟨ty, rowEq, fun holding => declaredEq (declared x binding.rename binding.ty holding)⟩

theorem row_eq_none_of_leave (left : view.leave = some view') : view'.row = none := by
  unfold leave at left
  split at left
  · cases left
  · split at left
    · cases left
      rfl
    · cases left

theorem leave_of_trackLeaving (member : x ∈ names) (left : trackLeaving x names view = some view') :
    view.leave = some view' := by
  induction names generalizing view with
  | nil => simp at member
  | cons name names ih =>
    rw [trackLeaving, foldlM_cons] at left
    obtain ⟨_, leftFirst, leftRest⟩ := bind_eq_some_iff.mp left
    by_cases sameName : name = x
    · rw [whenNamed, if_pos sameName] at leftFirst
      by_cases again : x ∈ names
      · have leftAgain := ih again leftRest
        simp [leave, row_eq_none_of_leave leftFirst] at leftAgain
      · rw [eq_of_trackLeaving again leftRest]
        exact leftFirst
    · rw [mem_cons] at member
      obtain rfl := eq_of_leave sameName leftFirst
      exact ih (member.resolve_left (Ne.symm sameName)) leftRest

/-- The end of the scope of variables declared here: a row that came into scope
is still there, at the depth it was declared at, and it is tracked if it is
linear. -/
theorem inStep_scope (inStep : InStep depth view holding)
    (scope : TracksScope x depth bindings body view view')
    (bodyInStep : ∀ entered bodyView, InStep depth entered (declaredAll x bindings holding) →
      track x depth body entered = some bodyView →
      InStep depth bodyView (flow x body (declaredAll x bindings holding))) :
    InStep depth view' (ended x (bindings.map TypedBinding.rename)
      (flow x body (declaredAll x bindings holding))) := by
  obtain ⟨_, _, enteredEq, bodyEq, leftEq⟩ := scope
  have atEnd := bodyInStep _ _ (inStep.enterAll enteredEq) bodyEq
  by_cases bound : x ∈ bindings.map TypedBinding.rename
  · rw [ended_of_mem bound]
    obtain ⟨ty, enteredRow, declaredEq⟩ := entered_of_mem bound enteredEq
    have stays := staysInScope_track (by simp [enteredRow]) bodyEq
    obtain ⟨_, present, _⟩ := stays.persists _ enteredRow
    refine atEnd.leave present rfl (fun linear => ?_) (leave_of_trackLeaving bound leftEq)
    rw [stays.isTracked, declaredEq, if_pos (show isLinear ty = true from linear)]
    rfl
  · rw [ended_of_not_mem bound]
    obtain rfl := eq_of_trackLeaving bound leftEq
    exact atEnd

theorem inStep_loop (inStep : InStep depth view holding)
    (bodyEq : track x (depth + 1) body view = some bodyView)
    (bodyInStep : InStep (depth + 1) bodyView (flow x body holding))
    (noneNew : ∀ row, holding.isTracked = true → view.row = some row → bodyView.pending = true →
      row.depth < depth) :
    InStep depth bodyView (ended x (temporaries body) (flow x body holding)) := by
  rcases holding.untracked_or_isTracked with rfl | tracked
  · rw [flow_ended_untracked]
    exact .untracked bodyInStep.not_pending
  · obtain ⟨row, present⟩ := isSome_iff_exists.mp (inStep.row_isSome tracked)
    have stays := staysInScope_track (by simp [present]) bodyEq
    obtain ⟨_, present', _⟩ := stays.persists row present
    have outer : row.depth ≤ depth := (inStep.of_row tracked present).2.1
    have flowTracked := (stays.isTracked holding).trans tracked
    rw [ended_of_not_mem stays.notTemporary]
    generalize flow x body holding = final at bodyInStep flowTracked
    cases bodyInStep with
    | untracked => cases flowTracked
    | held present'' sameTy linear notConsumed _ unmarked =>
      cases present'.symm.trans present''
      exact .held present' sameTy linear notConsumed outer unmarked
    | empty present'' sameTy linear consumed =>
      cases present'.symm.trans present''
      exact .empty present' sameTy linear consumed outer (noneNew row tracked present)

theorem ne_consumed_of_isBorrowed {state : VarState} (borrowed : state.isBorrowed = true) :
    state ≠ .consumed := by
  rintro rfl
  cases borrowed

theorem borrow_eq_some (borrowed : view.borrow mode = some state) :
    ∃ row, view.row = some row ∧ row.state ≠ .consumed ∧ state.isBorrowed = true := by
  unfold borrow at borrowed
  split at borrowed
  · cases borrowed
  · rename_i row present
    refine ⟨row, present, ?_⟩
    split at borrowed
    · rename_i unconsumed
      cases borrowed
      cases mode <;> simp [unconsumed, borrowedState, VarState.isBorrowed]
    · split at borrowed
      · rename_i readAgain
        cases borrowed
        simp [readAgain.2, VarState.isBorrowed]
      · cases borrowed

theorem inStep_startBorrow (inStep : InStep depth view holding)
    (startEq : startBorrow x original mode view = some during) : InStep depth during holding := by
  rw [startBorrow] at startEq
  split at startEq
  · obtain ⟨_, borrowEq, rfl⟩ := map_eq_some_iff.mp startEq
    obtain ⟨_, present, unborrowed, borrowed⟩ := borrow_eq_some borrowEq
    refine inStep.set (fun row' present' => ?_) (ne_consumed_of_isBorrowed borrowed)
    rw [← some.inj (present.symm.trans present')]
    exact unborrowed
  · rwa [← some.inj startEq]

theorem inStep_restoreBorrow (startEq : startBorrow x original mode view = some during)
    (enteredEq : whenNamed x rename (enter refType depth) during = some entered)
    (bodyEq : track x depth body entered = some bodyView)
    (bodyInStep : InStep depth bodyView holding) :
    InStep depth (restoreBorrow x original view bodyView) holding := by
  by_cases isOriginal : original = x
  · rw [startBorrow, if_pos isOriginal] at startEq
    obtain ⟨state, borrowEq, rfl⟩ := map_eq_some_iff.mp startEq
    obtain ⟨row, present, unborrowed, borrowed⟩ := borrow_eq_some borrowEq
    have present' : (view.set state).row = some { row with state := state } := by
      simp [VarView.set, present]
    obtain ⟨_, rfl⟩ := ne_of_enter (by simp [present']) enteredEq
    obtain ⟨_, bodyRow, _, stillBorrowed⟩ :=
      (staysInScope_track (by simp [present']) bodyEq).persists _ present'
    obtain rfl := stillBorrowed (.inl borrowed)
    have restored : restoreBorrow x original view bodyView = bodyView.set row.state := by
      simp [restoreBorrow, present, isOriginal]
    rw [restored]
    refine bodyInStep.set (fun row' presentRow => ?_) unborrowed
    rw [← some.inj (bodyRow.symm.trans presentRow)]
    exact ne_consumed_of_isBorrowed borrowed
  · rwa [restoreBorrow_of_ne isOriginal]

theorem inStep_borrow (inStep : InStep depth view holding)
    (startEq : startBorrow x original mode view = some during)
    (enteredEq : whenNamed x rename (enter refType depth) during = some entered)
    (bodyEq : track x depth body entered = some bodyView)
    (leftEq : whenNamed x rename leave (restoreBorrow x original view bodyView) = some view')
    (bodyInStep : ∀ entered bodyView, InStep depth entered (declared x rename refType holding) →
      track x depth body entered = some bodyView →
      InStep depth bodyView (flow x body (declared x rename refType holding))) :
    InStep depth view' (ended x [rename] (flow x body (declared x rename refType holding))) := by
  by_cases sameName : rename = x
  · -- The borrowed variable is in scope, so the reference has another name.
    have notOriginal : original ≠ x := by
      intro isOriginal
      rw [startBorrow, if_pos isOriginal] at startEq
      obtain ⟨_, borrowEq, rfl⟩ := map_eq_some_iff.mp startEq
      obtain ⟨_, present, _⟩ := borrow_eq_some borrowEq
      exact (ne_of_enter (by simp [VarView.set, present]) enteredEq).1 sameName
    rw [startBorrow, if_neg notOriginal] at startEq
    cases startEq
    rw [restoreBorrow_of_ne notOriginal, ← trackLeaving_singleton] at leftEq
    rw [← trackBindings_singleton rename] at enteredEq
    exact inStep_scope inStep ⟨entered, bodyView, enteredEq, bodyEq, leftEq⟩ bodyInStep
  · obtain rfl := eq_of_leave sameName leftEq
    rw [ended_of_not_mem (by simpa using Ne.symm sameName)]
    exact inStep_restoreBorrow startEq enteredEq bodyEq
      (bodyInStep _ _ ((inStep_startBorrow inStep startEq).enter enteredEq) bodyEq)

theorem inStep_when (inStep : InStep depth view holding)
    (bodyInStep : ∀ view view', InStep depth view (declaredAll x whn.bindings holding) →
      track x depth whn.body view = some view' →
      InStep depth view' (flow x whn.body (declaredAll x whn.bindings holding)))
    (tracked : trackWhen x depth whn view = some view') :
    InStep depth view' (flowWhen x whn holding) := by
  have scope := track_when tracked
  obtain ⟨_, _, _⟩ := whn
  exact (inStep_scope inStep scope bodyInStep).ended _

theorem steadyWhen_of_mem (member : whn ∈ whens)
    (areSteady : steadyWhens x losses whens holding = true) :
    steady x losses false whn.body (declaredAll x whn.bindings holding) = true ∧
      steadyEnd x losses whn.body (flow x whn.body (declaredAll x whn.bindings holding)) =
        true := by
  induction whens with
  | nil => cases member
  | cons _ _ ih =>
    rw [steadyWhens, Bool.and_eq_true] at areSteady
    rcases mem_cons.mp member with rfl | inRest
    · obtain ⟨_, _, _⟩ := whn
      simpa only [steadyWhen, Bool.and_eq_true] using areSteady.1
    · exact ih inRest areSteady.2

section

variable (inStep : InStep depth view holding)
include inStep

theorem inStep_track (tracked : track x depth stmt view = some view') :
    InStep depth view' (flow x stmt holding) := by
  induction stmt generalizing depth view view' holding with
  | skip =>
    cases tracked
    exact inStep
  | letStmt _ _ _ _ ih => exact inStep_scope inStep (track_letStmt tracked) fun _ _ => ih
  | letTmp =>
    obtain ⟨_, enteredEq, read⟩ := track_letTmp tracked
    exact (inStep.enter enteredEq).read read
  | assignTmp =>
    obtain ⟨readView, read, filled, unfilled⟩ := track_assignTmp tracked
    rw [flow]
    cases present : readView.row.isSome with
    | true => exact (inStep.read read).fill (filled present)
    | false =>
      rw [unfilled present]
      exact (inStep.read read).refilled_absent (by simp [present])
  | destructure _ _ _ _ ih =>
    obtain ⟨_, read, scope⟩ := track_destructure tracked
    exact inStep_scope (inStep.read read) scope fun _ _ => ih
  | assign =>
    obtain ⟨_, readLvalue, readValue⟩ := track_assign tracked
    exact (inStep.read readLvalue).read readValue
  | assignVar =>
    obtain ⟨_, read, filled⟩ := track_assignVar tracked
    exact (inStep.read read).fill filled
  | initialAssign | discarding =>
    rw [track] at tracked
    exact inStep.read tracked
  | ifStmt _ _ _ ih =>
    obtain ⟨_, _, read, trueEq, _⟩ := track_ifStmt tracked
    exact (ih (inStep.read read) trueEq).ended _
  | caseStmt _ _ _ ih =>
    obtain ⟨_, _, read, viewsEq, _, rfl⟩ := track_caseStmt tracked
    rcases head_trackWhens viewsEq with ⟨rfl, headEq⟩ | ⟨whn, member, isHead, headEq⟩
    · rw [headEq]
      exact inStep.read read
    · have armInStep := inStep_when (inStep.read read) (fun _ _ => ih whn member) headEq
      obtain ⟨_, rfl⟩ := head?_eq_some_iff.mp isHead
      exact armInStep
  | whileStmt condition _ ih =>
    obtain ⟨_, read, bodyEq, noneNew⟩ := track_whileStmt tracked
    have readInStep := inStep.read read
    refine inStep_loop readInStep bodyEq (ih readInStep.succ bodyEq) ?_
    intro _ isTracked present pending
    -- What is pending after the loop was so before its condition.
    rw [isTracked_spentBy] at isTracked
    obtain ⟨before, presentBefore⟩ := isSome_iff_exists.mp (inStep.row_isSome isTracked)
    obtain ⟨_, present', _⟩ := persists_read read before presentBefore
    rw [some.inj (present.symm.trans present')]
    exact (inStep.of_row isTracked presentBefore).2.2.1 (noneNew pending)
  | forStmt _ _ _ _ ih =>
    obtain ⟨_, _, readStart, readFinal, bodyEq, noneNew⟩ := track_forStmt tracked
    have readInStep := (inStep.read readStart).read readFinal
    exact inStep_loop readInStep bodyEq (ih readInStep.succ bodyEq)
      fun row isTracked present pending =>
        (readInStep.of_row isTracked present).2.2.1 (noneNew pending)
  | borrow _ _ _ _ _ _ _ ih =>
    obtain ⟨_, _, _, startEq, enteredEq, bodyEq, leftEq⟩ := track_borrow tracked
    exact inStep_borrow inStep startEq enteredEq bodyEq leftEq fun _ _ => ih
  | block _ _ ihFirst ihSecond =>
    obtain ⟨_, firstEq, secondEq⟩ := track_block tracked
    exact ihSecond (ihFirst inStep firstEq) secondEq
  | returnStmt => exact inStep.read (track_returnStmt tracked).1

/-- A loop leaves what it found: a variable with a value has one again, because
the checker looks at what is pending, and one without a value has none, because
the body is steady. -/
theorem loop_keeps (bodyEq : track x (depth + 1) body view = some bodyView)
    (noneNew : holding.isTracked = true → bodyView.pending = true → view.pending = true)
    (keeps : steadyLoop holding (flow x body holding) = true) :
    ended x (temporaries body) (flow x body holding) = holding := by
  rcases holding.untracked_or_isTracked with rfl | tracked
  · rw [flow_ended_untracked]
  · obtain ⟨row, present⟩ := isSome_iff_exists.mp (inStep.row_isSome tracked)
    have stays := staysInScope_track (by simp [present]) bodyEq
    obtain ⟨_, present', unmarkedBack, _⟩ := stays.persists row present
    have bodyInStep := inStep_track inStep.succ bodyEq
    have bodyTracked := (stays.isTracked holding).trans tracked
    rw [ended_of_not_mem stays.notTemporary]
    refine eq_of_ty?_of_isHeld (stays.keepsType _) ?_
    cases inStep with
    | untracked => cases tracked
    | @held row' _ present'' _ _ notConsumed _ unmarked =>
      obtain rfl : row = row' := some.inj (present.symm.trans present'')
      have unmarked' : bodyView.pending = false := by
        by_contra pending
        simp [noneNew rfl (by simpa using pending)] at unmarked
      rw [(bodyInStep.of_row bodyTracked present').2.2.2]
      refine decide_eq_true fun consumed => ?_
      exact notConsumed (unmarkedBack (by omega) consumed unmarked').1
    | @empty row' ty => simpa [steadyLoop, isTracked, isHeld] using keeps

theorem inStep_arm (tracked : trackWhen x depth whn view = some view') :
    InStep depth view' (flowWhen x whn holding) :=
  inStep_when inStep (fun _ _ bodyInStep => inStep_track bodyInStep) tracked

end

/-! ## The arms of a branch agree -/

theorem isHeld_of_consistent (firstInStep : InStep depth first holding)
    (secondInStep : InStep depth second holding') (tracked : holding.isTracked = true)
    (tracked' : holding'.isTracked = true) (consistent : first.consistent second = true) :
    holding.isHeld = holding'.isHeld := by
  obtain ⟨row, present⟩ := isSome_iff_exists.mp (firstInStep.row_isSome tracked)
  obtain ⟨row', present'⟩ := isSome_iff_exists.mp (secondInStep.row_isSome tracked')
  obtain ⟨linear, _, _, held⟩ := firstInStep.of_row tracked present
  obtain ⟨linear', _, _, held'⟩ := secondInStep.of_row tracked' present'
  have sameState : row.state = row'.state := by
    simpa [VarView.consistent, present, present', linear, linear'] using consistent
  rw [held, held', sameState]

theorem arms_agree {first second : TStmt} {firstView secondView : VarView}
    (inStep : InStep depth view holding) (firstEq : track x depth first view = some firstView)
    (secondEq : track x depth second view = some secondView)
    (consistent : firstView.consistent secondView = true) :
    ended x (temporaries second) (flow x second holding) =
      ended x (temporaries first) (flow x first holding) := by
  rcases holding.untracked_or_isTracked with rfl | tracked
  · rw [flow_ended_untracked, flow_ended_untracked]
  · have firstStays := staysInScope_track (inStep.row_isSome tracked) firstEq
    have secondStays := staysInScope_track (inStep.row_isSome tracked) secondEq
    rw [ended_of_not_mem firstStays.notTemporary, ended_of_not_mem secondStays.notTemporary]
    refine eq_of_ty?_of_isHeld ?_ ?_
    · rw [firstStays.keepsType, secondStays.keepsType]
    · exact (isHeld_of_consistent (inStep_track inStep firstEq) (inStep_track inStep secondEq)
        ((firstStays.isTracked _).trans tracked) ((secondStays.isTracked _).trans tracked)
        consistent).symm

theorem mem_of_trackWhens (tracked : trackWhens x depth whens view = some views)
    (member : whn ∈ whens) : ∃ armView, trackWhen x depth whn view = some armView := by
  induction whens generalizing views with
  | nil => cases member
  | cons _ _ ih =>
    rw [trackWhens] at tracked
    obtain ⟨firstView, firstEq, tracked⟩ := bind_eq_some_iff.mp tracked
    obtain ⟨_, restEq, _⟩ := bind_eq_some_iff.mp tracked
    rcases mem_cons.mp member with rfl | inRest
    · exact ⟨firstView, firstEq⟩
    · exact ih restEq inRest

theorem consistent_of_trackWhens
    (tracked : trackWhens x depth (first :: second :: whens) view = some views)
    (consistent : listConsistent views = true) :
    ∃ firstView secondView, trackWhen x depth first view = some firstView ∧
      trackWhen x depth second view = some secondView ∧ firstView.consistent secondView = true := by
  rw [trackWhens] at tracked
  obtain ⟨firstView, firstEq, tracked⟩ := bind_eq_some_iff.mp tracked
  obtain ⟨_, restEq, tracked⟩ := bind_eq_some_iff.mp tracked
  cases tracked
  rw [trackWhens] at restEq
  obtain ⟨secondView, secondEq, restEq⟩ := bind_eq_some_iff.mp restEq
  obtain ⟨_, _, restEq⟩ := bind_eq_some_iff.mp restEq
  cases restEq
  simp only [listConsistent, Bool.and_eq_true] at consistent
  exact ⟨firstView, secondView, firstEq, secondEq, consistent.1⟩

theorem whens_agree (inStep : InStep depth view holding)
    (tracked : trackWhens x depth whens view = some views)
    (consistent : listConsistent views = true) (agree : steadyArms x whens holding = true) :
    ∀ whn ∈ whens, flowWhen x whn holding = flowWhens x whens holding := by
  intro whn member
  rcases holding.untracked_or_isTracked with rfl | isTracked
  · obtain ⟨_, _, rfl⟩ := exists_cons_of_ne_nil (ne_nil_of_mem member)
    rw [flowWhens, flowWhen_untracked, flowWhen_untracked]
  · have present := inStep.row_isSome isTracked
    have keepsType : ∀ arm ∈ whens, (flowWhen x arm holding).ty? = holding.ty? := by
      intro _ armMember
      obtain ⟨_, armEq⟩ := mem_of_trackWhens tracked armMember
      exact (staysInScope_when present (staysInScope_track present) armEq).2 holding
    have staysTracked : ∀ arm ∈ whens, (flowWhen x arm holding).isTracked = true :=
      fun arm armMember =>
        (isTracked_of_ty? (keepsType arm armMember)).trans isTracked
    refine eq_of_ty?_of_isHeld ?_ ?_
    · rw [keepsType whn member, ty?_flowWhens holding fun arm isHead =>
        keepsType arm (mem_of_head? isHead)]
    · rw [steadyArms, Bool.or_eq_true, all_eq_true] at agree
      rcases agree with few | allAgree
      · match whens, few with
        | [_], _ =>
          obtain rfl := mem_singleton.mp member
          rfl
        | [first, second], _ =>
          rcases mem_cons.mp member with rfl | inRest
          · rfl
          · obtain rfl := mem_singleton.mp inRest
            obtain ⟨_, _, firstEq, secondEq, agreeing⟩ :=
              consistent_of_trackWhens tracked consistent
            exact (isHeld_of_consistent (inStep_arm inStep firstEq) (inStep_arm inStep secondEq)
              (staysTracked _ mem_cons_self) (staysTracked _ member) agreeing).symm
      · simpa using allAgree whn member

end Steps

end AustralVM
