import Mathlib.Logic.Basic

/-!
# Hot swaps of loaded cells

`cell_swap` puts a new descriptor in the place of a cell's old one.  If the cell has a
state and the new descriptor can migrate it, the state is handed over, with what the old
descriptor saves of it, and then released.
-/

namespace AustralVM.Runtime

variable {Pointer : Type}

/-- What `cell_swap` reads of a descriptor.  `save` gives what the hook writes. -/
structure CellDescriptor (Pointer : Type) where
  typeHash : String
  requiredCaps : UInt64
  hasDrop : Bool
  save : Option (Pointer → List UInt8)
  migrate : Option (Pointer → Option (List UInt8) → Option Pointer)

structure CellEntry (Pointer : Type) where
  desc : CellDescriptor Pointer
  state : Option Pointer

/-- A state is released by the hook of its descriptor, or with `free`. -/
inductive Release (Pointer : Type)
  | drop (state : Pointer)
  | free (state : Pointer)

def Release.state : Release Pointer → Pointer
  | .drop state | .free state => state

def CellDescriptor.release (old : CellDescriptor Pointer) (state : Pointer) : Release Pointer :=
  if old.hasDrop then .drop state else .free state

inductive Migration (Pointer : Type)
  | untried
  | aborted
  | tried (result : Option Pointer)

/-- Save the state and migrate it.  An assertion of the serializer fails if the buffer is too
small for what is saved. -/
def migrateState (old new : CellDescriptor Pointer) : Option Pointer → Migration Pointer
  | none => .untried
  | some state =>
    match new.migrate, old.save with
    | none, _ => .untried
    | some migrate, none => .tried (migrate state none)
    | some migrate, some save =>
      if (save state).length ≤ 4096 then .tried (migrate state (some (save state))) else .aborted

def cellCanReplace (old new : CellDescriptor Pointer) : Bool :=
  old.typeHash = new.typeHash && new.requiredCaps &&& old.requiredCaps = new.requiredCaps

inductive SwapOutcome (Pointer : Type)
  | returned (swapped : Bool) (entry : CellEntry Pointer) (released : List (Release Pointer))
  | aborted

/-- `cell_swap` for the entry of a loaded cell.  If there is no new descriptor, it returns
false at once. -/
def cellSwap (entry : CellEntry Pointer) (new : CellDescriptor Pointer) : SwapOutcome Pointer :=
  if cellCanReplace entry.desc new then
    match migrateState entry.desc new entry.state with
    | .untried => .returned true ⟨new, none⟩ []
    | .aborted => .aborted
    | .tried result => .returned true ⟨new, result⟩ (entry.state.toList.map entry.desc.release)
  else .returned false entry []

/-- A swap releases the old state once and keeps what migration has made of it; where there
is no swap or nothing comes of the migration, all is as before. -/
structure SwapSound (entry : CellEntry Pointer) (migration : Migration Pointer) (swapped : Bool)
    (result : CellEntry Pointer) (released : List (Release Pointer)) : Prop where
  once : swapped = true → released.map Release.state = entry.state.toList
  lives : ∀ state, migration = .tried (some state) → swapped = true →
    result.state = some state ∧ state ∉ released.map Release.state
  kept : swapped = false ∨ migration = .tried none → result = entry ∧ released = []

theorem map_state_release (old : CellDescriptor Pointer) (states : List Pointer) :
    (states.map old.release).map Release.state = states := by
  have released : Release.state ∘ old.release = id := by
    funext state
    rw [Function.comp_apply, CellDescriptor.release]
    split <;> rfl
  rw [List.map_map, released, List.map_id]

/-- A swap that returns is sound exactly if there is none, the cell has no state, or its
state is migrated to another place. -/
theorem cellSwap_sound_iff (entry : CellEntry Pointer) (new : CellDescriptor Pointer) :
    (∀ swapped result released, cellSwap entry new = .returned swapped result released →
      SwapSound entry (migrateState entry.desc new entry.state) swapped result released) ↔
    (cellCanReplace entry.desc new → ∀ state, entry.state = some state →
      migrateState entry.desc new (some state) = .aborted ∨
        ∃ moved ≠ state, migrateState entry.desc new (some state) = .tried (some moved)) := by
  obtain ⟨old, state?⟩ := entry
  rw [cellSwap]
  dsimp only
  split
  · rename_i replaces
    cases state? with
    | none =>
      refine iff_of_true ?_ nofun
      rintro _ _ _ ⟨⟩
      exact ⟨fun _ => rfl, nofun, nofun⟩
    | some state =>
      simp only [replaces, true_imp_iff, Option.some.injEq, forall_eq']
      cases migrateState old new (some state) with
      | untried =>
        refine iff_of_false (fun sound => ?_) (by simp)
        cases (sound _ _ _ rfl).once rfl
      | aborted => exact iff_of_true nofun (.inl rfl)
      | tried result =>
        cases result with
        | none =>
          refine iff_of_false (fun sound => ?_) (by simp)
          cases ((sound _ _ _ rfl).kept (.inr rfl)).2
        | some moved =>
          constructor
          · intro sound
            have apart := ((sound _ _ _ rfl).lives moved rfl rfl).2
            rw [map_state_release] at apart
            exact .inr ⟨moved, fun same => apart (same ▸ List.mem_cons_self), rfl⟩
          · rintro (isAborted | ⟨_, apart, ⟨⟩⟩) _ _ _ ⟨⟩
            · cases isAborted
            refine ⟨fun _ => map_state_release _ _, ?_, nofun⟩
            rintro _ ⟨⟩ -
            rw [map_state_release]
            exact ⟨rfl, fun member => apart (List.mem_singleton.mp member)⟩
  · rename_i differs
    refine iff_of_true ?_ fun replaces => absurd replaces differs
    rintro _ _ _ ⟨⟩
    exact ⟨nofun, fun _ _ => nofun, fun _ => ⟨rfl, rfl⟩⟩

/-- Nothing migrates the state of the cell; it is lost without a release. -/
theorem cellSwap_loses_state :
    let old : CellDescriptor Nat := ⟨"counter", 0, true, some fun _ => [], none⟩
    let new : CellDescriptor Nat := ⟨"counter", 0, true, none, none⟩
    cellSwap ⟨old, some 1⟩ new = .returned true ⟨new, none⟩ [] ∧
      ¬ SwapSound ⟨old, some 1⟩ .untried true ⟨new, none⟩ [] := by
  refine ⟨rfl, fun sound => ?_⟩
  cases sound.once rfl

end AustralVM.Runtime
