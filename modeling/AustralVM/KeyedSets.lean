import Mathlib.Data.Finset.Basic
import Mathlib.Data.List.AList

/-!
# Keyed values

What is found in a list from which a key was dropped; and a finite map that holds a set
for some of its keys, with the two ways to grow it: to add to the set of one key, and to
merge with another map.  A key without a set counts as one with the empty set, so that
merging is union at every key.
-/

theorem List.lookup_filter_ne [DecidableEq κ] (entries : List (κ × α)) (key other : κ) :
    (entries.filter (·.1 ≠ key)).lookup other =
      if other = key then none else entries.lookup other := by
  induction entries with
  | nil => simp
  | cons entry _ ih =>
    obtain ⟨own, _⟩ := entry
    by_cases isKey : own = key
    · rw [filter_cons_of_neg (by simp [isKey]), ih]
      grind
    · rw [filter_cons_of_pos (by simp [isKey]), lookup_cons, lookup_cons, ih]
      grind

abbrev KeyedSets (κ α : Type) := AList fun _ : κ => Finset α

namespace KeyedSets

variable {κ α : Type} [DecidableEq κ]

def setAt (map : KeyedSets κ α) (key : κ) : Finset α := (map.lookup key).getD ∅

@[simp]
theorem setAt_empty (key : κ) : KeyedSets.setAt (∅ : KeyedSets κ α) key = ∅ := rfl

variable [DecidableEq α]

/-- Add to the set at a key, and give it one if it has none. -/
def extend (map : KeyedSets κ α) (key : κ) (values : Finset α) : KeyedSets κ α :=
  map.insert key (map.setAt key ∪ values)

def extendAll (map : KeyedSets κ α) (entries : List (Σ _ : κ, Finset α)) : KeyedSets κ α :=
  entries.foldl (fun map entry => map.extend entry.1 entry.2) map

theorem setAt_extend (map : KeyedSets κ α) (key other : κ) (values : Finset α) :
    (map.extend key values).setAt other =
      if other = key then map.setAt other ∪ values else map.setAt other := by
  rw [extend, KeyedSets.setAt]
  split
  · rename_i sameKey
    subst sameKey
    rw [AList.lookup_insert, Option.getD_some]
  · rename_i otherKey
    rw [AList.lookup_insert_ne otherKey, KeyedSets.setAt]

theorem mem_setAt_extend {map : KeyedSets κ α} {key other : κ} {values : Finset α} {value : α} :
    value ∈ (map.extend key values).setAt other ↔
      value ∈ map.setAt other ∨ other = key ∧ value ∈ values := by
  rw [setAt_extend]
  split
  · rename_i sameKey
    simp [sameKey]
  · rename_i otherKey
    simp [otherKey]

theorem mem_setAt_extendAll {map : KeyedSets κ α} {entries : List (Σ _ : κ, Finset α)} {key : κ}
    {value : α} : value ∈ (map.extendAll entries).setAt key ↔
      value ∈ map.setAt key ∨ ∃ values, ⟨key, values⟩ ∈ entries ∧ value ∈ values := by
  induction entries generalizing map with
  | nil => simp [extendAll]
  | cons entry entries ih =>
    obtain ⟨other, others⟩ := entry
    have step : map.extendAll (⟨other, others⟩ :: entries) =
        (map.extend other others).extendAll entries := rfl
    rw [step, ih, mem_setAt_extend, or_assoc]
    constructor
    · rintro (known | ⟨rfl, isNew⟩ | ⟨values, member, isNew⟩)
      · exact .inl known
      · exact .inr ⟨others, List.mem_cons_self, isNew⟩
      · exact .inr ⟨values, List.mem_cons_of_mem _ member, isNew⟩
    · rintro (known | ⟨values, member, isNew⟩)
      · exact .inl known
      · rcases List.mem_cons.mp member with isEntry | inRest
        · cases isEntry
          exact .inr (.inl ⟨rfl, isNew⟩)
        · exact .inr (.inr ⟨values, inRest, isNew⟩)

theorem setAt_extendAll_entries (map other : KeyedSets κ α) (key : κ) :
    (map.extendAll other.entries).setAt key = map.setAt key ∪ other.setAt key := by
  ext value
  rw [mem_setAt_extendAll, Finset.mem_union]
  refine or_congr_right ?_
  rw [KeyedSets.setAt]
  constructor
  · rintro ⟨_, member, isIn⟩
    rw [AList.mem_lookup_iff.mpr member, Option.getD_some]
    exact isIn
  · intro isIn
    cases found : other.lookup key with
    | none => simp [found] at isIn
    | some values =>
      rw [found, Option.getD_some] at isIn
      exact ⟨values, AList.mem_lookup_iff.mp found, isIn⟩

end KeyedSets
