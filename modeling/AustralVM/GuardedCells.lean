import AustralVM.EvaluationInvariants
import Mathlib.Data.Set.Basic

/-!
# Cells that nothing can write

A set of cells that no write reference points into is left alone by every
expression: an expression reads variables and passes on references, and the only
rights to write that it can pass on are those that are already in memory.
-/

namespace AustralVM.Typed

open Stoppable List

/-! ## References in values -/

namespace Value

variable {value : Value}

theorem references_of_lookup (found : fields.lookup name = some value) :
    value.references ⊆ fieldReferences fields := by
  induction fields with
  | nil => cases found
  | cons field _ ih =>
    obtain ⟨_, _⟩ := field
    rw [fieldReferences]
    rw [lookup_cons] at found
    split at found
    · cases found
      exact subset_append_left _ _
    · exact List.Subset.trans (ih found) (subset_append_right _ _)

theorem references_slot (found : value.slot name = some part) :
    part.references ⊆ value.references := by
  cases value with
  | data => exact references_of_lookup found
  | uninitialized | unit | bool | int | string | function | reference | external => cases found

theorem references_follow (found : value.follow path = some part) :
    part.references ⊆ value.references := by
  induction path generalizing value with
  | nil =>
    cases found
    exact List.Subset.refl _
  | cons _ _ ih =>
    rw [follow] at found
    split at found
    · rename_i inner isSlot
      exact List.Subset.trans (ih found) (references_slot isSlot)
    · cases found

theorem fieldReferences_replaceField (name : Identifier) (new : Value)
    (fields : List (Identifier × Value)) :
    fieldReferences (replaceField name new fields) ⊆ fieldReferences fields ++ new.references := by
  induction fields with
  | nil => exact nil_subset _
  | cons field _ ih =>
    obtain ⟨_, _⟩ := field
    rw [replaceField]
    split
    · simp only [fieldReferences]
      intro _ isMember
      simp only [mem_append] at isMember ⊢
      tauto
    · simp only [fieldReferences]
      intro _ isMember
      rcases mem_append.mp isMember with inValue | inFields
      · simp [inValue]
      · have kept := ih inFields
        simp only [mem_append] at kept ⊢
        tauto

theorem references_replace (replaced : value.replace path new = some changed) :
    changed.references ⊆ value.references ++ new.references := by
  induction path generalizing value changed with
  | nil => cases value <;> (cases replaced; exact subset_append_right _ _)
  | cons name _ ih =>
    cases value with
    | data _ fields =>
      obtain ⟨_, found, rest⟩ := Option.bind_eq_some_iff.mp replaced
      obtain ⟨inner, isChanged, ⟨⟩⟩ := Option.bind_eq_some_iff.mp rest
      rw [references, references]
      intro _ isMember
      rcases mem_append.mp (fieldReferences_replaceField name inner fields isMember) with
        inFields | inInner
      · exact mem_append_left _ inFields
      · rcases mem_append.mp (ih isChanged inInner) with inPart | inNew
        · exact mem_append_left _ (references_of_lookup found inPart)
        · exact mem_append_right _ inNew
    | uninitialized | unit | bool | int | string | function | reference | external => cases replaced

/-- No write reference in the value points into a set of cells. -/
def Clean (guarded : Set Nat) (value : Value) : Prop :=
  ∀ place, (true, place) ∈ value.references → place.cell ∉ guarded

end Value

open Value

/-! ## Guarded cells -/

/-- The guarded cells are as they were on entry, none of them has been written, and no
write reference points into them. -/
structure Guards (guarded : Set Nat) (entry memory : Memory) : Prop where
  exist : ∀ cell ∈ guarded, cell < memory.cells.length
  same : ∀ cell ∈ guarded, memory.cells[cell]? = entry.cells[cell]?
  clean : ∀ value ∈ memory.cells, value.Clean guarded
  unwritten : ∀ cell ∈ memory.writes, cell ∉ guarded

/-- A run leaves guarded cells alone and gives a value of some kind. -/
abbrev Leaves {α : Type} (guarded : Set Nat) (entry : Memory) (post : α → Prop)
    (run : Run α) : Prop := Keeps (Guards guarded entry) post run

/-- The host writes only through the write references that it is given or finds in
memory, and makes none of its own: whatever cells no write reference points into, it
leaves alone. -/
structure Host.Confined (host : Host) : Prop where
  constant : ∀ guarded entry name, Leaves guarded entry (Value.Clean guarded) (host.constant name)
  float : ∀ guarded text, (host.float text).Clean guarded
  cast : ∀ guarded ty value result, host.cast ty value = some result → value.Clean guarded →
    result.Clean guarded
  index : ∀ guarded entry indexed position memory result, Guards guarded entry memory →
    indexed.Clean guarded → position.Clean guarded →
    host.index indexed position memory = some result → result.Clean guarded
  sizeOf : ∀ guarded ty, (host.sizeOf ty).Clean guarded
  embed : ∀ guarded entry ty template args, (∀ arg ∈ args, arg.Clean guarded) →
    Leaves guarded entry (Value.Clean guarded) (host.embed ty template args)
  foreign : ∀ guarded entry callee args, (∀ arg ∈ args, arg.Clean guarded) →
    Leaves guarded entry (Value.Clean guarded) (host.foreign callee args)

variable {guarded : Set Nat} {entry : Memory} {value : Value} {place : Place} {writable : Bool}

theorem leaves_alloc (clean : value.Clean guarded) :
    Leaves guarded entry (· ∉ guarded) (alloc value) := by
  refine Keeps.bind keeps_get fun memory guards => ?_
  have fresh : memory.cells.length ∉ guarded := fun inside =>
    absurd (guards.exist _ inside) (Nat.lt_irrefl _)
  refine Keeps.bind (keeps_set ?_) fun _ _ => keeps_pure fresh
  refine ⟨fun cell inside => ?_, fun cell inside => ?_, ?_, guards.unwritten⟩
  · rw [length_append]
    exact Nat.lt_add_right _ (guards.exist cell inside)
  · rw [getElem?_append_left (guards.exist cell inside)]
    exact guards.same cell inside
  · intro other isMember
    rcases mem_append.mp isMember with before | new
    · exact guards.clean other before
    · exact mem_singleton.mp new ▸ clean

theorem leaves_load (place : Place) : Leaves guarded entry (Value.Clean guarded) (load place) := by
  refine Keeps.bind keeps_get fun memory guards => keeps_ofOption fun value found => ?_
  obtain ⟨⟨whole, inMemory, followed⟩, -⟩ := Memory.valueAt_eq_some_iff.mp found
  intro target isReference
  exact guards.clean whole (mem_of_getElem? inMemory) target
    (references_follow followed isReference)

theorem leaves_store (outside : place.cell ∉ guarded) (clean : value.Clean guarded) :
    Leaves guarded entry (fun _ => True) (store place value) := by
  refine Keeps.bind keeps_get fun memory guards => ?_
  have readOld : Leaves guarded entry (Value.Clean guarded)
      (ofOption .stuck memory.cells[place.cell]?) :=
    keeps_ofOption fun old inMemory => guards.clean old (mem_of_getElem? inMemory)
  refine readOld.bind fun old oldClean => ?_
  have makeNew : Leaves guarded entry (Value.Clean guarded)
      (ofOption .stuck (old.replace place.path value)) := by
    refine keeps_ofOption fun new replaced target isReference => ?_
    rcases mem_append.mp (references_replace replaced isReference) with inOld | inValue
    · exact oldClean target inOld
    · exact clean target inValue
  refine makeNew.bind fun new newClean => keeps_set ?_
  have other {cell : Nat} (inside : cell ∈ guarded) : place.cell ≠ cell := fun same =>
    outside (same ▸ inside)
  refine ⟨fun cell inside => ?_, fun cell inside => ?_, ?_, ?_⟩
  · rw [length_set]
    exact guards.exist cell inside
  · rw [getElem?_set_ne (other inside)]
    exact guards.same cell inside
  · intro kept isMember
    rcases mem_or_eq_of_mem_set isMember with before | isNew
    · exact guards.clean kept before
    · exact isNew ▸ newClean
  · intro cell isWritten
    rcases mem_cons.mp isWritten with rfl | before
    · exact outside
    · exact guards.unwritten cell before

/-! ## Expressions -/

theorem clean_of_references_eq_nil (none : value.references = []) : value.Clean guarded := by
  intro _ isReference
  rw [none] at isReference
  cases isReference

theorem clean_reference (outside : writable = true → place.cell ∉ guarded) :
    (reference writable place).Clean guarded := by
  intro _ isReference
  obtain ⟨⟩ := mem_singleton.mp isReference
  exact outside rfl

theorem outside_of_clean (clean : (reference writable place).Clean guarded)
    (isWritable : writable = true) : place.cell ∉ guarded := by
  refine clean place ?_
  rw [references, ← isWritable]
  exact mem_singleton_self _

theorem clean_slot (clean : (reference writable place).Clean guarded) :
    (reference writable (place.slot name)).Clean guarded := by
  have outside := outside_of_clean clean
  exact clean_reference outside

theorem clean_data (clean : ∀ field ∈ fields, field.2.Clean guarded) :
    (data tag fields).Clean guarded := by
  intro place isReference
  rw [references] at isReference
  induction fields with
  | nil => cases isReference
  | cons field _ ih =>
    rcases mem_append.mp isReference with inHead | inTail
    · exact clean field mem_cons_self place inHead
    · exact ih (forall_mem_cons.mp clean).2 inTail

def CallsLeave (guarded : Set Nat) (entry : Memory) (call : Callee → List Value → Run Value) :
    Prop :=
  ∀ callee args, (∀ arg ∈ args, arg.Clean guarded) →
    Leaves guarded entry (Value.Clean guarded) (call callee args)

theorem Host.Confined.preserved (confined : host.Confined) (calls : CallsLeave guarded entry call) :
    Preserved (Guards guarded entry) (Value.Clean guarded) host call where
  plain := fun _ none => clean_of_references_eq_nil none
  slot := fun _ _ _ => clean_slot
  readOnly := fun _ _ _ => clean_reference nofun
  data := fun _ _ => clean_data
  load := leaves_load
  constant := confined.constant guarded entry
  float := confined.float guarded
  cast := confined.cast guarded
  index := confined.index guarded entry
  sizeOf := confined.sizeOf guarded
  embed := confined.embed guarded entry
  call := calls

end AustralVM.Typed
