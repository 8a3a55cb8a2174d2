import AustralVM.LiquidConstraints
import AustralVM.TermMeaning

/-!
# Bodies that do not reassign

In a body without assignments every variable keeps the value that it is given where it
is made.  While such a body runs the environment of the goals stays
true of the variables, whatever branches are taken.
-/

namespace AustralVM.Liquid

open Typed Stoppable List Bool

/-! ## The statements -/

mutual

/-- No assignment but the one that a variable is made with. -/
def steady : TStmt → Bool
  | .skip | .discarding _ | .returnStmt _ | .letTmp _ _ _ => true
  | .letStmt _ name _ (.block (.initialAssign target _) rest) =>
    target.original = name && steady rest
  | .destructure _ _ _ body | .borrow _ _ _ _ _ body _ | .whileStmt _ body
  | .forStmt _ _ _ body => steady body
  | .ifStmt _ consequent alternative => steady consequent && steady alternative
  | .caseStmt _ whens _ => steadyWhens whens
  | .block first second => steady first && steady second
  | _ => false

def steadyWhens : List (TypedWhen TStmt) → Bool
  | [] => true
  | ⟨_, _, body⟩ :: whens => steady body && steadyWhens whens

end

mutual

def returnsIn : TStmt → Bool
  | .returnStmt _ => true
  | .letStmt _ _ _ body | .destructure _ _ _ body | .whileStmt _ body | .forStmt _ _ _ body
  | .borrow _ _ _ _ _ body _ => returnsIn body
  | .ifStmt _ first second | .block first second => returnsIn first || returnsIn second
  | .caseStmt _ whens _ => returnsInWhens whens
  | _ => false

def returnsInWhens : List (TypedWhen TStmt) → Bool
  | [] => false
  | ⟨_, _, body⟩ :: whens => returnsIn body || returnsInWhens whens

end

theorem steady_letStmt (isSteady : steady (.letStmt mutability name ty body)) :
    ∃ target value rest, body = .block (.initialAssign target value) rest ∧
      target.original = name ∧ steady rest := by
  cases body with
  | block first rest =>
    cases first with
    | initialAssign target value =>
      rw [steady, and_eq_true, decide_eq_true_eq] at isSteady
      exact ⟨target, value, rest, rfl, isSteady⟩
    | _ =>
      unfold steady at isSteady
      cases isSteady
  | _ =>
    unfold steady at isSteady
    cases isSteady

/-- Whether a statement leaves the variables of its block as they are. -/
def inPlace : TStmt → Bool
  | .block _ _ | .letTmp _ _ _ => false
  | _ => true

/-- A name that is bound, and the expression that the goals take it to stand for. -/
abbrev Binder := String × Option TExpr

def slotBinders (bindings : List TypedBinding) : List Binder :=
  bindings.map fun binding => (binding.rename.string, none)

mutual

def binders : TStmt → List Binder
  | .letTmp name _ value => [(name.string, some value)]
  | .initialAssign name value => [(name.original.string, some value)]
  | .letStmt _ _ _ body | .whileStmt _ body => binders body
  | .forStmt name _ _ body => (name.string, none) :: binders body
  | .destructure _ bindings _ body => slotBinders bindings ++ binders body
  | .borrow original rename _ origType _ body mode =>
    (rename.string, if mode = .read then some (.paramVar original origType) else none) ::
      binders body
  | .ifStmt _ consequent alternative => binders consequent ++ binders alternative
  | .caseStmt _ whens _ => bindersWhens whens
  | .block first second => binders first ++ binders second
  | _ => []

def bindersWhens : List (TypedWhen TStmt) → List Binder
  | [] => []
  | ⟨_, bindings, body⟩ :: whens => slotBinders bindings ++ binders body ++ bindersWhens whens

end

namespace Reading

variable (reading : Reading)

/-- A name that is bound is no parameter, and the environment knows it by what it is
bound to or not at all. -/
def Fits (binder : Binder) : Prop :=
  binder.1 ∉ reading.params ∧
    ∀ expr, reading.temps.lookup binder.1 = some expr → binder.2 = some expr

variable {reading}

/-- If no name is bound twice, and the environment has only bindings of the body, then
all that the body binds fits it. -/
theorem fits_of_nodup (distinct : (reading.params ++ (binders body).map Prod.fst).Nodup)
    (known : ∀ binding ∈ reading.temps, (binding.1, some binding.2) ∈ binders body) :
    ∀ binder ∈ binders body, reading.Fits binder := by
  intro binder isMember
  obtain ⟨-, once, apart⟩ := nodup_append.mp distinct
  refine ⟨fun isParam => apart _ isParam _ (mem_map_of_mem isMember) rfl, ?_⟩
  intro expr isBound
  obtain ⟨_, _, split, -⟩ := lookup_eq_some_iff.mp isBound
  have inBody := known (binder.1, expr) (by rw [split]; simp)
  have same := inj_on_of_nodup_map once isMember inBody rfl
  rw [same]

theorem Consistent.bind (consistent : reading.Consistent frame memory) (var : Variable)
    (inMemory : memory.cells[cell]? = some value) (isParam : var.name ∈ reading.params →
      Denotes reading.code memory value (reading.values var.name))
    (isMatch : ∀ expr, reading.temps.lookup var.name = some expr → value ≠ .uninitialized →
      reading.Matches memory value expr) : reading.Consistent ((var, cell) :: frame) memory := by
  have cases {other : Variable} {otherCell : Nat}
      (found : ((var, cell) :: frame).lookup other = some otherCell) :
      other = var ∧ otherCell = cell ∨ frame.lookup other = some otherCell := by
    rw [lookup_cons] at found
    split at found
    · rename_i same
      cases found
      exact .inl ⟨eq_of_beq same, rfl⟩
    · exact .inr found
  refine ⟨?_, ?_, ?_⟩
  · intro other otherCell found
    rcases cases found with ⟨rfl, rfl⟩ | before
    · exact (List.getElem?_eq_some_iff.mp inMemory).1
    · exact consistent.exist other otherCell before
  · intro other otherCell found inParams
    rcases cases found with ⟨rfl, rfl⟩ | before
    · exact ⟨value, inMemory, isParam inParams⟩
    · exact consistent.params other otherCell before inParams
  · intro other otherCell otherValue expr found inCell initialized isBound
    rcases cases found with ⟨rfl, rfl⟩ | before
    · cases inMemory.symm.trans inCell
      exact isMatch expr isBound initialized
    · exact consistent.temps other otherCell otherValue expr before inCell initialized isBound

end Reading

/-! ## Memory while a statement runs -/

/-- Calls and the host's actions add cells at most. -/
structure Quiet (host : Host) (call : Callee → List Value → Run Value) : Prop where
  constant : ∀ name memory, Extends memory (host.constant name memory).2
  embed : ∀ ty template args memory, Extends memory (host.embed ty template args memory).2
  call : ∀ callee args memory, Extends memory (call callee args memory).2

section

variable {host : Host} {call : Callee → List Value → Run Value} {frame : Frame}
  {entry memory after between : Memory} {value : Value} {cell limit : Nat} {reading : Reading}
  {original rename : Identifier} {body : TStmt}

/-- A run adds cells at most to what there was on entry. -/
abbrev Adds {α : Type} (entry : Memory) (run : Run α) : Prop :=
  Keeps (Extends entry) (fun _ => True) run

theorem extends_of_keeps {run : Run α} (keeps : Keeps (Extends entry) post run)
    (grows : Extends entry memory) (ran : run memory = (result, after)) : Extends entry after := by
  have kept := (keeps memory grows).1
  rwa [ran] at kept

theorem adds_of_extends {run : Run α} (grows : ∀ memory, Extends memory (run memory).2) :
    Adds entry run :=
  fun memory kept => ⟨kept.trans (grows memory), fun _ _ => trivial⟩

theorem adds_load (place : Place) : Adds entry (load place) :=
  keeps_get.bind fun _ _ => keeps_ofOption fun _ _ => trivial

theorem adds_asReference (value : Value) : Adds entry (asReference value) := by
  have any : Keeps (Extends entry) _ (asReference value) := keeps_asReference (Eq.refl value)
  exact any.mono fun _ _ => trivial

theorem adds_alloc (value : Value) :
    Keeps (Extends entry) (entry.cells.length ≤ ·) (alloc value) := by
  refine Keeps.bind keeps_get fun memory grows => ?_
  exact Keeps.bind (keeps_set (grows.trans (prefix_append _ _))) fun _ _ =>
    keeps_pure grows.length_le

theorem adds_store {place : Place} (isNew : entry.cells.length ≤ place.cell) (value : Value) :
    Adds entry (store place value) := by
  refine Keeps.bind keeps_get fun memory grows => ?_
  refine Keeps.bind (keeps_ofOption fun _ _ => trivial) fun old _ => ?_
  refine Keeps.bind (keeps_ofOption fun _ _ => trivial) fun new _ => keeps_set ?_
  obtain ⟨_, same⟩ := grows
  rw [Extends, ← same, set_append_right _ _ isNew]
  exact prefix_append _ _

theorem adds_bindSlots (bindings : List TypedBinding) :
    Adds entry (bindSlots pick frame bindings) := by
  induction bindings generalizing frame with
  | nil => exact keeps_pure trivial
  | cons _ _ ih =>
    rw [bindSlots]
    exact Keeps.bind (keeps_ofOption fun _ _ => trivial) fun value _ =>
      (adds_alloc value).bind fun _ _ => ih

theorem adds_scrutinee (kind : CaseRef) (value : Value) : Adds entry (scrutinee kind value) := by
  cases kind with
  | casePlain =>
    unfold scrutinee
    dsimp only
    split
    · exact keeps_pure trivial
    · exact keeps_stop
  | caseRef =>
    rw [scrutinee]
    refine (adds_asReference value).bind fun target _ => (adds_load target.2).bind fun _ _ => ?_
    split
    · exact keeps_pure trivial
    · exact keeps_stop

namespace Quiet

variable (quiet : Quiet host call)
include quiet

theorem preserved (entry : Memory) : Preserved (Extends entry) (fun _ => True) host call where
  plain := fun _ _ => trivial
  slot := fun _ _ _ _ => trivial
  readOnly := fun _ _ _ => trivial
  data := fun _ _ _ => trivial
  load := adds_load
  constant := fun name => adds_of_extends (quiet.constant name)
  float := fun _ => trivial
  cast := fun _ _ _ _ _ => trivial
  index := fun _ _ _ _ _ _ _ _ => trivial
  sizeOf := fun _ => trivial
  embed := fun ty template args _ => adds_of_extends (quiet.embed ty template args)
  call := fun callee args _ => adds_of_extends (quiet.call callee args)

theorem eval (frame : Frame) (expr : TExpr) : Adds entry (eval host call frame expr) :=
  (quiet.preserved entry).eval frame expr

theorem test (frame : Frame) (expr : TExpr) :
    Adds entry (Typed.eval host call frame expr >>= asBool) :=
  (quiet.eval frame expr).bind fun value _ => keeps_asBool value

theorem number (frame : Frame) (expr : TExpr) :
    Adds entry (Typed.eval host call frame expr >>= asInt) :=
  (quiet.eval frame expr).bind fun value _ => keeps_asInt value

theorem extends_test
    (ran : (Typed.eval host call frame expr >>= asBool) memory = (.ok holds, after)) :
    Extends memory after := extends_of_keeps (quiet.test frame expr) (.refl memory) ran

theorem extends_number
    (ran : (Typed.eval host call frame expr >>= asInt) memory = (.ok bound, after)) :
    Extends memory after := extends_of_keeps (quiet.number frame expr) (.refl memory) ran

theorem parts (frame : Frame) (expr : TExpr) (kind : CaseRef) :
    Adds entry (Typed.eval host call frame expr >>= scrutinee kind) :=
  (quiet.eval frame expr).bind fun value _ => adds_scrutinee kind value

end Quiet

/-- A round of a `while` loop. -/
def whileRound (host : Host) (call : Callee → List Value → Run Value) (limit : Nat)
    (frame : Frame) (condition : TExpr) (body : TStmt) : Run (Option (Option Value)) := do
  if ← eval host call frame condition >>= asBool then
    let (_, returned) ← execStmt host call limit frame body
    pure (returned.map some)
  else pure (some none)

/-- A round of a `for` loop that counts in a cell. -/
def forRound (host : Host) (call : Callee → List Value → Run Value) (limit : Nat) (frame : Frame)
    (name : Identifier) (cell : Nat) (last : Int) (body : TStmt) : Run (Option (Option Value)) := do
  let current ← load ⟨cell, []⟩ >>= asInt
  if current ≤ last then
    let (_, returned) ← execStmt host call limit ((.named name.string, cell) :: frame) body
    match returned with
    | some value => pure (some (some value))
    | none =>
      store ⟨cell, []⟩ (.int (current + 1))
      pure none
  else pure (some none)

/-- What a statement leaves behind: the variables of its block, and no value if it has no
return. -/
abbrev Leaves (frame : Frame) (inPlace returns : Bool) (result : Frame × Option Value) : Prop :=
  (inPlace → result.1 = frame) ∧ (returns = false → result.2 = none)

abbrev RunsInPlace (host : Host) (call : Callee → List Value → Run Value) (limit : Nat)
    (entry : Memory) (stmt : TStmt) : Prop :=
  ∀ frame, Keeps (Extends entry) (Leaves frame (inPlace stmt) (returnsIn stmt))
    (execStmt host call limit frame stmt)

section

variable (runsBody : RunsInPlace host call limit entry body)
include runsBody

theorem adds_whileRound (quiet : Quiet host call) : Keeps (Extends entry)
      (fun again => ∀ returned, again = some returned → returnsIn body = false → returned = none)
      (whileRound host call limit frame condition body) := by
  refine (quiet.test frame condition).bind fun holds _ => ?_
  split
  · refine (runsBody frame).bind fun result ends => keeps_pure ?_
    intro _ isAgain noReturn
    rw [ends.2 noReturn] at isAgain
    cases isAgain
  · exact keeps_pure fun _ isAgain _ => (Option.some.inj isAgain).symm

theorem adds_forRound (isNew : entry.cells.length ≤ cell) : Keeps (Extends entry)
      (fun again => ∀ returned, again = some returned → returnsIn body = false → returned = none)
      (forRound host call limit frame name cell last body) := by
  refine ((adds_load _).bind fun value _ => keeps_asInt value).bind fun current _ => ?_
  split
  · refine (runsBody _).bind fun result ends => ?_
    obtain ⟨_, returned⟩ := result
    cases returned with
    | some => exact keeps_pure fun _ _ noReturn => nomatch ends.2 noReturn
    | none => exact (adds_store isNew _).bind fun _ _ => keeps_pure (by rintro _ ⟨⟩)
  · exact keeps_pure fun _ isAgain _ => (Option.some.inj isAgain).symm

end

theorem adds_execArm
    (bodies : ∀ arm ∈ whens, steady arm.body → RunsInPlace host call limit entry arm.body)
    (allSteady : steadyWhens whens) :
    Keeps (Extends entry) (fun returned => returnsInWhens whens = false → returned = none)
      (execArm host call limit frame tag pick whens) := by
  induction whens with
  | nil =>
    rw [execArm]
    exact keeps_stop
  | cons arm _ ih =>
    obtain ⟨_, bindings, _⟩ := arm
    rw [steadyWhens, and_eq_true] at allSteady
    simp only [returnsInWhens, or_eq_false_iff]
    rw [execArm]
    split
    · refine (adds_bindSlots bindings).bind fun inner _ => ?_
      exact (bodies _ mem_cons_self allSteady.1 inner).bind fun _ ends =>
        keeps_pure fun noReturn => ends.2 noReturn.1
    · exact (ih (forall_mem_cons.mp bodies).2 allSteady.2).mono fun _ ends noReturn =>
        ends noReturn.2

theorem adds_initialAssign (limit : Nat) (frame : Frame) (quiet : Quiet host call)
    (isNew : entry.cells.length ≤ cell) (target : QIdent) (value : TExpr) :
    Keeps (Extends entry) (· = ((.named target.original.string, cell) :: frame, none))
      (execStmt host call limit ((.named target.original.string, cell) :: frame)
        (.initialAssign target value)) := by
  rw [execStmt]
  refine (quiet.eval _ value).bind fun new _ => ?_
  have writes : Adds entry
      (Frame.write ((.named target.original.string, cell) :: frame) (.named target.original.string)
        new) := by
    refine (keeps_cellOf _ _).bind fun _ isFound => ?_
    rw [lookup_cons_self] at isFound
    cases isFound
    exact adds_store isNew new
  exact writes.bind fun _ _ => keeps_pure rfl

theorem runsInPlace (quiet : Quiet host call) (stmt : TStmt) :
    (steady stmt → RunsInPlace host call limit entry stmt) ∧
    ∀ target value rest, stmt = .block (.initialAssign target value) rest → steady rest →
      RunsInPlace host call limit entry rest := by
  induction stmt with
    (refine ⟨fun isSteady frame => ?_, by
      rintro _ _ _ ⟨⟩ <;> exact And.left (by assumption)⟩
     rw [execStmt]
     unfold returnsIn)
  | skip => exact keeps_pure ⟨fun _ => rfl, fun _ => rfl⟩
  | letStmt _ _ _ body ih =>
    obtain ⟨target, value, rest, rfl, rfl, restSteady⟩ := steady_letStmt isSteady
    refine (adds_alloc _).bind fun cell isNew => ?_
    simp only [execStmt.eq_def host call limit _ (.block _ _), returnsIn, Bool.false_or]
    refine ((adds_initialAssign limit frame quiet isNew target value).bind ?_).bind
      fun _ ends => keeps_pure ⟨fun _ => rfl, ends⟩
    rintro _ rfl
    exact (ih.2 target value rest rfl restSteady _).mono fun _ ends => ends.2
  | destructure _ bindings value _ ih =>
    rw [steady] at isSteady
    refine (quiet.eval frame value).bind fun whole _ => ?_
    refine (adds_bindSlots bindings).bind fun inner _ => ?_
    exact (ih.1 isSteady inner).bind fun _ ends => keeps_pure ⟨fun _ => rfl, ends.2⟩
  | ifStmt condition _ _ ihConsequent ihAlternative =>
    rw [steady, and_eq_true] at isSteady
    refine (quiet.test frame condition).bind fun holds _ => ?_
    split
    · exact (ihConsequent.1 isSteady.1 frame).bind fun _ ends =>
        keeps_pure ⟨fun _ => rfl, fun noReturn => ends.2 (or_eq_false_iff.mp noReturn).1⟩
    · exact (ihAlternative.1 isSteady.2 frame).bind fun _ ends =>
        keeps_pure ⟨fun _ => rfl, fun noReturn => ends.2 (or_eq_false_iff.mp noReturn).2⟩
  | caseStmt value _ kind ih =>
    rw [steady] at isSteady
    refine (quiet.parts frame value kind).bind fun parts _ => ?_
    exact (adds_execArm (fun arm isMember => (ih arm isMember).1) isSteady).bind fun _ ends =>
      keeps_pure ⟨fun _ => rfl, ends⟩
  | borrow _ rename _ _ _ body mode ih =>
    rw [steady] at isSteady
    have inner (reference : Value) :
        Keeps (Extends entry) (Leaves frame true (returnsIn body)) (do
          let cell ← alloc reference
          let result ← execStmt host call limit ((.named rename.string, cell) :: frame) body
          pure (frame, result.2)) :=
      (adds_alloc reference).bind fun cell _ => (ih.1 isSteady _).bind fun _ ends =>
        keeps_pure ⟨fun _ => rfl, ends.2⟩
    refine (keeps_cellOf frame _).bind fun source _ => ?_
    cases mode with
    | read | write => exact inner _
    | reborrow =>
      refine ((adds_load _).bind fun value _ => adds_asReference value).bind fun target _ => ?_
      dsimp only
      split
      · exact inner _
      · exact keeps_stop
  | block _ _ ihFirst ihSecond =>
    rw [steady, and_eq_true] at isSteady
    refine (ihFirst.1 isSteady.1 frame).bind fun result ends => ?_
    obtain ⟨inner, returned⟩ := result
    cases returned with
    | some =>
      exact keeps_pure
        ⟨nofun, fun noReturn => nomatch ends.2 (or_eq_false_iff.mp noReturn).1⟩
    | none =>
      exact (ihSecond.1 isSteady.2 inner).mono fun _ ends =>
        ⟨nofun, fun noReturn => ends.2 (or_eq_false_iff.mp noReturn).2⟩
  | discarding value =>
    exact (quiet.eval frame value).bind fun _ _ => keeps_pure ⟨fun _ => rfl, fun _ => rfl⟩
  | returnStmt value =>
    exact (quiet.eval frame value).bind fun _ _ => keeps_pure ⟨fun _ => rfl, nofun⟩
  | letTmp _ _ value =>
    exact (quiet.eval frame value).bind fun initial _ => (adds_alloc initial).bind fun _ _ =>
      keeps_pure ⟨nofun, fun _ => rfl⟩
  | whileStmt condition _ ih =>
    rw [steady] at isSteady
    exact (keeps_loop (adds_whileRound (ih.1 isSteady) quiet) limit).bind fun _ ends =>
      keeps_pure ⟨fun _ => rfl, ends⟩
  | forStmt name start final _ ih =>
    rw [steady] at isSteady
    refine (quiet.number frame start).bind fun first _ => ?_
    refine (quiet.number frame final).bind fun last _ => ?_
    refine (adds_alloc (.int first)).bind fun cell isNew => ?_
    exact (keeps_loop (adds_forRound (ih.1 isSteady) isNew) limit).bind fun _ ends =>
      keeps_pure ⟨fun _ => rfl, ends⟩
  | assign | assignVar | initialAssign | assignTmp =>
    unfold steady at isSteady
    cases isSteady

theorem extends_of_steady (quiet : Quiet host call) (isSteady : steady stmt)
    (ran : execStmt host call limit frame stmt memory = (.ok result, after)) :
    Extends memory after ∧ Leaves frame (inPlace stmt) (returnsIn stmt) result := by
  have runs : RunsInPlace host call limit memory stmt := (runsInPlace quiet stmt).1 isSteady
  have keeps := runs frame memory (.refl memory)
  rw [ran] at keeps
  exact ⟨keeps.1, keeps.2 result rfl⟩

/-! ## Variables while a statement runs -/

theorem bindSlots_consistent {reading : Reading} {inner : Frame}
    (consistent : reading.Consistent frame memory)
    (fits : ∀ binder ∈ slotBinders bindings, reading.Fits binder)
    (ran : bindSlots pick frame bindings memory = (.ok inner, after)) :
    reading.Consistent inner after := by
  induction bindings generalizing frame memory with
  | nil =>
    obtain ⟨rfl, rfl⟩ := pure_eq_ok.mp ran
    exact consistent
  | cons binding _ ih =>
    rw [bindSlots, bind_eq_ok] at ran
    obtain ⟨_, between, isPicked, ran⟩ := ran
    obtain ⟨-, rfl⟩ := ofOption_eq_ok.mp isPicked
    obtain ⟨_, _, allocated, ran⟩ := bind_eq_ok.mp ran
    obtain ⟨grows, -, inMemory⟩ := extends_alloc allocated
    have fitsFirst := fits _ mem_cons_self
    have bound := (consistent.mono grows).bind (.named binding.rename.string) inMemory
      (fun isParam => absurd isParam fitsFirst.1) fun expr isBound => nomatch fitsFirst.2 expr isBound
    exact ih bound (forall_mem_cons.mp fits).2 ran

theorem store_eq_ok (ran : store ⟨cell, []⟩ value memory = (.ok done, after)) :
    cell < memory.cells.length ∧ after.cells = memory.cells.set cell value := by
  obtain ⟨_, between, isMemory, ran⟩ := bind_eq_ok.mp ran
  obtain ⟨rfl, rfl⟩ := get_eq_ok.mp isMemory
  obtain ⟨old, between, isOld, ran⟩ := bind_eq_ok.mp ran
  obtain ⟨inMemory, rfl⟩ := ofOption_eq_ok.mp isOld
  obtain ⟨_, _, isNew, ran⟩ := bind_eq_ok.mp ran
  obtain ⟨replaced, rfl⟩ := ofOption_eq_ok.mp isNew
  cases ran
  refine ⟨(List.getElem?_eq_some_iff.mp inMemory).1, ?_⟩
  cases old <;> cases replaced <;> rfl

theorem write_eq_ok (ran : frame.write var value memory = (.ok done, after)) :
    ∃ cell, frame.lookup var = some cell ∧ cell < memory.cells.length ∧
      after.cells = memory.cells.set cell value := by
  obtain ⟨cell, _, isCell, ran⟩ := bind_eq_ok.mp ran
  obtain ⟨found, rfl⟩ := ofOption_eq_ok.mp isCell
  exact ⟨cell, found, store_eq_ok ran⟩

theorem asInt_eq_ok (ran : asInt value memory = (.ok number, after)) :
    value = .int number ∧ after = memory := by
  cases value with
  | int =>
    obtain ⟨rfl, rfl⟩ := pure_eq_ok.mp ran
    exact ⟨rfl, rfl⟩
  | uninitialized | unit | bool | string | function | reference | data | external => cases ran

theorem Reading.Consistent.declare {value : Option TExpr}
    (consistent : reading.Consistent frame memory) (fits : reading.Fits (name, value))
    (allocated : alloc .uninitialized memory = (.ok cell, between)) :
    reading.Consistent ((.named name, cell) :: frame) between := by
  obtain ⟨grows, -, inMemory⟩ := extends_alloc allocated
  exact (consistent.mono grows).bind (.named name) inMemory
    (fun isParam => absurd isParam fits.1) fun _ _ initialized => absurd rfl initialized

variable {result : Frame × Option Value}

section

variable (models : reading.Describes host call) (quiet : Quiet host call)
include models quiet

section

variable {target : QIdent} {value : TExpr}
  (fits : reading.Fits (target.original.string, some value))
  (consistent : reading.Consistent frame memory)
  (allocated : alloc .uninitialized memory = (.ok cell, between))
include fits consistent allocated

theorem initialAssign_eq_ok
    (ran : execStmt host call limit ((.named target.original.string, cell) :: frame)
      (.initialAssign target value) between = (.ok result, last)) :
    result = ((.named target.original.string, cell) :: frame, none) ∧
      reading.Consistent ((.named target.original.string, cell) :: frame) last := by
  obtain ⟨grows, isNew, inMemory⟩ := extends_alloc allocated
  have declared := consistent.declare fits allocated
  have keeps := adds_initialAssign limit frame quiet isNew.ge target value
  have growsLast := extends_of_keeps keeps grows ran
  refine ⟨(keeps between grows).2 result (by rw [ran]), ?_⟩
  rw [execStmt, bind_eq_ok] at ran
  obtain ⟨new, evaluated, ranValue, ranWrite⟩ := ran
  have growsValue := extends_of_keeps (quiet.eval _ value) (.refl between) ranValue
  obtain ⟨_, wrote, rfl⟩ := bind_pure_eq_ok.mp ranWrite
  obtain ⟨_, isFound, inRange, isSet⟩ := write_eq_ok wrote
  rw [lookup_cons_self] at isFound
  cases isFound
  have fills : Fills evaluated last := by
    intro other _ inOther initialized
    rw [isSet]
    by_cases same : cell = other
    · subst same
      rw [growsValue.getElem? inMemory] at inOther
      cases inOther
      exact absurd rfl initialized
    · rw [getElem?_set_ne same, inOther]
  have inLast : last.cells[cell]? = some new := by rw [isSet, getElem?_set_self inRange]
  refine (consistent.mono growsLast).bind (.named target.original.string) inLast
    (fun isParam => absurd isParam fits.1) fun expr isBound _ => ?_
  cases fits.2 expr isBound
  exact (eval_matches models declared ranValue).mono fills

theorem letBody_eq_ok
    (ran : execStmt host call limit ((.named target.original.string, cell) :: frame)
      (.block (.initialAssign target value) rest) between = (.ok result, after)) :
    ∃ last, reading.Consistent ((.named target.original.string, cell) :: frame) last ∧
      execStmt host call limit ((.named target.original.string, cell) :: frame) rest last =
        (.ok result, after) := by
  rw [execStmt, bind_eq_ok] at ran
  obtain ⟨_, last, ranAssign, ranRest⟩ := ran
  obtain ⟨rfl, bound⟩ := initialAssign_eq_ok models quiet fits consistent allocated ranAssign
  exact ⟨last, bound, ranRest⟩

end

/-- A statement leaves the variables of the rest of the block as the environment knows
them.  Only a temporary, and a block with one, changes which they are. -/
theorem consistent_of_steady (isSteady : steady stmt)
    (fits : ∀ binder ∈ binders stmt, reading.Fits binder)
    (consistent : reading.Consistent frame memory)
    (ran : execStmt host call limit frame stmt memory = (.ok result, after)) :
    reading.Consistent result.1 after := by
  induction stmt generalizing frame memory result after with
  | block _ _ ihFirst ihSecond =>
    rw [steady, and_eq_true] at isSteady
    rw [binders, forall_mem_append] at fits
    rw [execStmt, bind_eq_ok] at ran
    obtain ⟨⟨inner, returned⟩, between, ranFirst, ran⟩ := ran
    have innerConsistent := ihFirst isSteady.1 fits.1 consistent ranFirst
    cases returned with
    | some =>
      obtain ⟨rfl, rfl⟩ := pure_eq_ok.mp ran
      exact innerConsistent
    | none => exact ihSecond isSteady.2 fits.2 innerConsistent ran
  | letTmp name _ expr =>
    rw [execStmt, bind_eq_ok] at ran
    obtain ⟨_, _, ranValue, ran⟩ := ran
    obtain ⟨_, allocated, rfl⟩ := bind_pure_eq_ok.mp ran
    obtain ⟨growsMore, -, inMemory⟩ := extends_alloc allocated
    have grows := extends_of_keeps (quiet.eval frame expr) (.refl memory) ranValue
    have fitsHere := fits (name.string, some expr) (by rw [binders]; exact mem_cons_self)
    refine (consistent.mono (grows.trans growsMore)).bind (.temporary name.string) inMemory
      (fun isParam => absurd isParam fitsHere.1) fun bound isBound _ => ?_
    cases fitsHere.2 bound isBound
    exact (eval_matches models consistent ranValue).mono growsMore.fills
  | _ =>
    obtain ⟨grows, same, -⟩ := extends_of_steady quiet isSteady ran
    rw [same rfl]
    exact consistent.mono grows

end

theorem matches_readBorrow (consistent : reading.Consistent frame memory)
    (found : frame.lookup (.named original.string) = some source) (origType : Ty) :
    reading.Matches memory (.reference false ⟨source, []⟩) (.paramVar original origType) := by
  intro depth _ _ _ isTerm inParams
  have isVariable : termAt reading.temps depth (.paramVar original origType) =
      some (.var original.string none, [original.string]) := by
    cases depth <;> rfl
  cases isVariable.symm.trans isTerm
  obtain ⟨value, inMemory, denotes⟩ := consistent.params _ source found
    (inParams mem_cons_self)
  exact .through (Memory.valueAt_eq_some_iff.mpr ⟨⟨value, inMemory, rfl⟩, denotes.initialized⟩)
    denotes

inductive Borrows (frame : Frame) (memory : Memory) (original : Identifier) :
    BorrowStmtKind → Value → Prop
  | read {source : Nat} (found : frame.lookup (.named original.string) = some source) :
      Borrows frame memory original .read (.reference false ⟨source, []⟩)
  | other {mode : BorrowStmtKind} {place : Place} (isOther : mode ≠ .read) :
      Borrows frame memory original mode (.reference true place)

theorem Reading.Consistent.bindBorrow (consistent : reading.Consistent frame memory)
    (fits : reading.Fits
      (rename.string, if mode = .read then some (.paramVar original origType) else none))
    (borrows : Borrows frame memory original mode reference)
    (allocated : alloc reference memory = (.ok cell, between)) :
    reading.Consistent ((.named rename.string, cell) :: frame) between := by
  obtain ⟨grows, -, inMemory⟩ := extends_alloc allocated
  refine (consistent.mono grows).bind (.named rename.string) inMemory
    (fun isParam => absurd isParam fits.1) fun expr isBound _ => ?_
  have isExpr := fits.2 expr isBound
  cases borrows with
  | read found =>
    cases isExpr
    exact (matches_readBorrow consistent found origType).mono grows.fills
  | other isOther =>
    rw [if_neg isOther] at isExpr
    cases isExpr

variable {before : Memory} {name : Identifier}

theorem Reading.Consistent.bindCounter (consistent : reading.Consistent frame before)
    (fits : reading.Fits (name.string, none)) (grows : Extends before memory)
    (inMemory : memory.cells[cell]? = some value) :
    reading.Consistent ((.named name.string, cell) :: frame) memory :=
  (consistent.mono grows).bind (.named name.string) inMemory
    (fun isParam => absurd isParam fits.1) fun expr isBound => nomatch fits.2 expr isBound

theorem counter_eq_ok (ran : (load ⟨cell, []⟩ >>= asInt) memory = (.ok current, after)) :
    memory.cells[cell]? = some (.int current) ∧ after = memory := by
  obtain ⟨_, _, loaded, isInt⟩ := bind_eq_ok.mp ran
  obtain ⟨found, rfl⟩ := load_eq_ok loaded
  obtain ⟨rfl, rfl⟩ := asInt_eq_ok isInt
  obtain ⟨⟨_, inMemory, same⟩, -⟩ := Memory.valueAt_eq_some_iff.mp found
  cases same
  exact ⟨inMemory, rfl⟩

end

end AustralVM.Liquid
