import AustralVM.TypedSemantics

/-!
# Invariants of evaluation

An expression changes memory only through the calls and the host's actions in it.
What these keep, and what is true of every value that they or memory can give, is
kept by the evaluation of every expression, and true of its value.
-/

namespace AustralVM.Typed

open Stoppable

namespace Value

mutual

/-- The references in a value, with the right to write. -/
def references : Value → List (Bool × Place)
  | .reference writable place => [(writable, place)]
  | .data _ fields => fieldReferences fields
  | _ => []

def fieldReferences : List (Identifier × Value) → List (Bool × Place)
  | [] => []
  | (_, value) :: fields => value.references ++ fieldReferences fields

end

end Value

theorem Memory.valueAt_eq_some_iff {memory : Memory} {place : Place} {value : Value} :
    memory.valueAt place = some value ↔ (∃ whole, memory.cells[place.cell]? = some whole ∧
      whole.follow place.path = some value) ∧ value ≠ .uninitialized := by
  rw [← Option.bind_eq_some_iff, Memory.valueAt]
  split
  · rename_i isUninitialized
    refine ⟨nofun, fun ⟨found, initialized⟩ => ?_⟩
    cases isUninitialized.symm.trans found
    exact absurd rfl initialized
  · rename_i isInitialized
    refine ⟨fun found => ⟨found, ?_⟩, And.left⟩
    rintro rfl
    exact isInitialized found

/-- An invariant of memory and a property of values that calls and the host keep. -/
structure Preserved (invariant : Memory → Prop) (good : Value → Prop) (host : Host)
    (call : Callee → List Value → Run Value) : Prop where
  plain : ∀ value, value.references = [] → good value
  slot : ∀ writable place name, good (.reference writable place) →
    good (.reference writable (place.slot name))
  readOnly : ∀ writable place, good (.reference writable place) → good (.reference false place)
  data : ∀ tag fields, (∀ field ∈ fields, good field.2) → good (.data tag fields)
  load : ∀ place, Keeps invariant good (load place)
  constant : ∀ name, Keeps invariant good (host.constant name)
  float : ∀ text, good (host.float text)
  cast : ∀ ty value result, host.cast ty value = some result → good value → good result
  index : ∀ indexed position memory result, invariant memory → good indexed → good position →
    host.index indexed position memory = some result → good result
  sizeOf : ∀ ty, good (host.sizeOf ty)
  embed : ∀ ty template args, (∀ arg ∈ args, good arg) →
    Keeps invariant good (host.embed ty template args)
  call : ∀ callee args, (∀ arg ∈ args, good arg) → Keeps invariant good (call callee args)

section

variable {invariant : Memory → Prop} {good : Value → Prop} {host : Host}
  {call : Callee → List Value → Run Value} {frame : Frame}

theorem keeps_asReference (holds : good value) :
    Keeps invariant (fun target => good (.reference target.1 target.2)) (asReference value) := by
  cases value with
  | reference => exact keeps_pure holds
  | uninitialized | unit | bool | int | string | function | data | external => exact keeps_stop

theorem keeps_asBool (value : Value) : Keeps invariant (fun _ => True) (asBool value) := by
  cases value with
  | bool => exact keeps_pure trivial
  | uninitialized | unit | int | string | function | reference | data | external => exact keeps_stop

theorem keeps_asInt (value : Value) : Keeps invariant (fun _ => True) (asInt value) := by
  cases value with
  | int => exact keeps_pure trivial
  | uninitialized | unit | bool | string | function | reference | data | external =>
    exact keeps_stop

theorem keeps_asFunction (value : Value) : Keeps invariant (fun _ => True) (asFunction value) := by
  cases value with
  | function => exact keeps_pure trivial
  | uninitialized | unit | bool | int | string | reference | data | external => exact keeps_stop

theorem keeps_cellOf (frame : Frame) (var : Variable) :
    Keeps invariant (fun cell => frame.lookup var = some cell) (frame.cellOf var) :=
  keeps_ofOption fun _ found => found

namespace Preserved

variable (preserved : Preserved invariant good host call)
include preserved

theorem read (var : Variable) : Keeps invariant good (frame.read var) :=
  (keeps_cellOf frame var).bind fun cell _ => preserved.load ⟨cell, []⟩

theorem castTo (ty : Ty) (holds : good value) : Keeps invariant good (castTo host ty value) := by
  unfold Typed.castTo
  split
  · exact keeps_pure (preserved.readOnly _ _ holds)
  · exact keeps_ofOption fun result made => preserved.cast _ _ result made holds

set_option linter.unusedSectionVars false in
mutual
theorem eval (frame : Frame) (expr : TExpr) : Keeps invariant good (eval host call frame expr) := by
  have plain {value : Value} (none : value.references = []) :
      Keeps invariant good (pure value : Run Value) := keeps_pure (preserved.plain value none)
  cases expr with rw [Typed.eval]
  | nilConstant | boolConstant | stringConstant | funVar => exact plain rfl
  | intConstant => exact Keeps.bind (keeps_ofOption fun _ _ => trivial) fun value _ => plain rfl
  | floatConstant text => exact keeps_pure (preserved.float text)
  | sizeOf ty => exact keeps_pure (preserved.sizeOf ty)
  | constVar name => exact preserved.constant name
  | paramVar | localVar | temporary => exact preserved.read _
  | funcall _ _ args | methodCall _ _ _ args | varMethodCall _ _ _ _ args =>
    exact (evals frame args).bind fun values allHold => preserved.call _ values allHold
  | fptrCall name args =>
    refine ((preserved.read (.named name.string)).bind fun value _ => keeps_asFunction value).bind
      fun callee _ => ?_
    exact (evals frame args).bind fun values allHold => preserved.call callee values allHold
  | cast expr ty => exact (eval frame expr).bind fun value holds => preserved.castTo ty holds
  | comparison _ lhs rhs =>
    refine (eval frame lhs).bind fun first _ => (eval frame rhs).bind fun second _ => ?_
    exact Keeps.bind (keeps_ofOption fun _ _ => trivial) fun holds _ => plain rfl
  | conjunction lhs rhs | disjunction lhs rhs =>
    refine ((eval frame lhs).bind fun value _ => keeps_asBool value).bind fun first _ => ?_
    split
    all_goals first
      | exact eval frame rhs
      | exact plain rfl
  | negation expr =>
    exact ((eval frame expr).bind fun value _ => keeps_asBool value).bind fun value _ => plain rfl
  | ifExpression condition consequent alternative =>
    refine ((eval frame condition).bind fun value _ => keeps_asBool value).bind fun holds _ => ?_
    split
    · exact eval frame consequent
    · exact eval frame alternative
  | recordConstructor _ args | unionConstructor _ _ args =>
    exact (evalFields frame args).bind fun fields allHold =>
      keeps_pure (preserved.data _ fields allHold)
  | slotAccessor expr =>
    refine ((eval frame expr).bind fun value holds => keeps_asReference holds).bind
      fun target holds => ?_
    exact keeps_pure (preserved.slot _ _ _ holds)
  | pointerSlotAccessor expr =>
    refine ((eval frame expr).bind fun value holds => keeps_asReference holds).bind
      fun outer _ => ?_
    refine ((preserved.load outer.2).bind fun value holds => keeps_asReference holds).bind
      fun target holds => ?_
    exact keeps_pure (preserved.slot _ _ _ holds)
  | arrayIndex expr index | spanIndex expr index =>
    refine (eval frame expr).bind fun indexed holds => ?_
    refine (eval frame index).bind fun position holdsToo => ?_
    refine keeps_get.bind fun memory kept => keeps_ofOption fun result found => ?_
    exact preserved.index indexed position memory result kept holds holdsToo found
  | embed ty template args =>
    exact (evals frame args).bind fun values allHold => preserved.embed ty template values allHold
  | deref expr =>
    exact ((eval frame expr).bind fun value holds => keeps_asReference holds).bind
      fun target _ => preserved.load target.2
theorem evals (frame : Frame) (exprs : List TExpr) :
    Keeps invariant (fun values => ∀ value ∈ values, good value) (evals host call frame exprs) := by
  cases exprs with rw [Typed.evals]
  | nil => exact keeps_pure nofun
  | cons expr exprs =>
    refine (eval frame expr).bind fun value holds => ?_
    exact (evals frame exprs).bind fun values allHold =>
      keeps_pure (List.forall_mem_cons.mpr ⟨holds, allHold⟩)
theorem evalFields (frame : Frame) (fields : List (Identifier × TExpr)) :
    Keeps invariant (fun values => ∀ value ∈ values, good value.2)
      (evalFields host call frame fields) := by
  match fields with
  | [] =>
    rw [Typed.evalFields]
    exact keeps_pure nofun
  | (_, expr) :: fields =>
    rw [Typed.evalFields]
    refine (eval frame expr).bind fun value holds => ?_
    exact (evalFields frame fields).bind fun values allHold =>
      keeps_pure (List.forall_mem_cons.mpr ⟨holds, allHold⟩)
end

end Preserved

end

end AustralVM.Typed
