import AustralVM.StoreManifest
import Mathlib.Algebra.BigOperators.Group.List.Basic
import Mathlib.Data.List.AList
import Mathlib.Logic.Relation

/-!
# Threads on one hot store

A call of `acquire` that finds no cell makes room, assembles the cell, adds its size
to the usage and inserts it, and other threads take steps between these.  The cell
that it inserts may replace one that another call has counted already.
-/

namespace AustralVM.Cas

open Relation ReflTransGen
open List hiding after

/-- What a thread does next: a call, or the part of one that is left. -/
inductive HotCall
  | acquire (id : Digest)
  | makeRoom (id : Digest) (size : Nat)
  | evict (id : Digest) (size : Nat)
  | assemble (id : Digest) (size : Nat)
  | insert (id : Digest) (size : Nat)
  | release (id : Digest)
  | subtract (size : Nat)

/-- The cells with their sizes, and what each thread has still to do. -/
structure SharedHotStore where
  capacity : Nat
  cells : AList fun _ : Digest => Nat
  usage : Nat
  threads : List (List HotCall)

def totalSize (cells : AList fun _ : Digest => Nat) : Nat := (cells.entries.map Sigma.snd).sum

namespace SharedHotStore

/-- One step of a thread, with what it does after that.  The scan for a victim, with the
steps of other threads between its own, may end at any key or at none. -/
inductive Step (store : SharedHotStore) : HotCall → SharedHotStore → List HotCall → Prop
  | hit (found : store.cells.lookup key = some size) : Step store (.acquire key) store []
  | refused : Step store (.acquire key) store []
  | miss (size : Nat) (absent : store.cells.lookup key = none) :
    Step store (.acquire key) store [.makeRoom key size]
  | fits (small : store.usage + size ≤ store.capacity) :
    Step store (.makeRoom key size) store [.assemble key size]
  | full (large : store.capacity < store.usage + size) :
    Step store (.makeRoom key size) store [.evict key size]
  | victim (other : Digest) :
    Step store (.evict key size) store [.release other, .makeRoom key size]
  | noVictim : Step store (.evict key size) store [.assemble key size]
  | failed : Step store (.assemble key size) store []
  | assembled : Step store (.assemble key size) { store with usage := store.usage + size }
      [.insert key size]
  | inserted : Step store (.insert key size)
      { store with cells := store.cells.insert key size } []
  | absent (absent : store.cells.lookup key = none) : Step store (.release key) store []
  | removed (found : store.cells.lookup key = some size) :
    Step store (.release key) { store with cells := store.cells.erase key } [.subtract size]
  | subtracted : Step store (.subtract size) { store with usage := store.usage - size } []

/-- Some thread takes a step that is allowed. -/
inductive Moves (allowed : SharedHotStore → HotCall → Prop) (store : SharedHotStore) :
    SharedHotStore → Prop
  | step (turn : store.threads ~ (call :: stack) :: others) (isAllowed : allowed store call)
      (step : Step store call after rest) :
    Moves allowed store { after with threads := (rest ++ stack) :: others }

/-- An insert does not replace a cell. -/
def Fresh (store : SharedHotStore) : HotCall → Prop
  | .insert id _ => store.cells.lookup id = none
  | _ => True

/-- The size that is in the usage and not among the cells. -/
def counted : HotCall → Nat
  | .insert _ size | .subtract size => size
  | _ => 0

def Balanced (store : SharedHotStore) (calls : List HotCall) : Prop :=
  store.usage = totalSize store.cells + (calls.map counted).sum

theorem totalSize_erase {cells : AList fun _ : Digest => Nat}
    (found : cells.lookup key = some size) :
    totalSize (cells.erase key) + size = totalSize cells := by
  have sum_kerase (entries : List (Σ _ : Digest, Nat)) (found : dlookup key entries = some size) :
      ((kerase key entries).map Sigma.snd).sum + size = (entries.map Sigma.snd).sum := by
    induction entries with
    | nil => cases found
    | cons entry _ ih =>
      obtain ⟨other, _⟩ := entry
      by_cases same : key = other
      · subst same
        rw [dlookup_cons_eq] at found
        cases found
        simp [Nat.add_comm]
      · rw [dlookup_cons_ne _ _ same] at found
        simp [same, Nat.add_assoc, ih found]
  exact sum_kerase cells.entries found

theorem totalSize_insert {cells : AList fun _ : Digest => Nat}
    (absent : cells.lookup key = none) (size : Nat) :
    totalSize (cells.insert key size) = size + totalSize cells := by
  rw [totalSize, AList.entries_insert_of_notMem (AList.lookup_eq_none.mp absent), map_cons,
    sum_cons, ← totalSize]

theorem Step.balanced {store : SharedHotStore} (step : Step store call after rest)
    (fresh : store.Fresh call) (balanced : store.Balanced (call :: calls)) :
    after.Balanced (rest ++ calls) := by
  simp only [Balanced, map_cons, map_append, sum_cons, sum_append] at balanced ⊢
  cases step with
  | inserted =>
    rw [totalSize_insert fresh]
    simp only [counted, map_nil, sum_nil] at balanced ⊢
    omega
  | removed found =>
    rw [← totalSize_erase found] at balanced
    simp only [counted, map_cons, map_nil, sum_cons, sum_nil] at balanced ⊢
    omega
  | _ =>
    simp only [counted, map_cons, map_nil, sum_cons, sum_nil] at balanced ⊢
    omega

/-- **The accounting of threads.**  In a run in which no insert replaces a cell, the usage
is the total size of the cells when all calls have returned. -/
theorem usage_eq_of_fresh (capacity : Nat) (programs : List (List HotCall)) (store : SharedHotStore)
    (calls : ∀ call ∈ programs.flatten, ∃ id, call = .acquire id ∨ call = .release id)
    (run : ReflTransGen (Moves Fresh) ⟨capacity, ∅, 0, programs⟩ store)
    (returned : store.threads.flatten = []) : store.usage = totalSize store.cells := by
  have balanced : store.Balanced store.threads.flatten := by
    clear returned
    induction run with
    | refl =>
      have none : (programs.flatten.map counted).sum = 0 := by
        refine sum_eq_zero fun size isSize => ?_
        obtain ⟨call, inPrograms, rfl⟩ := mem_map.mp isSize
        obtain ⟨_, rfl | rfl⟩ := calls call inPrograms <;> rfl
      rw [Balanced, none]
      rfl
    | tail _ moves ih =>
      obtain ⟨turn, fresh, step⟩ := moves
      rw [Balanced, (turn.flatten.map counted).sum_eq] at ih
      have kept := step.balanced fresh ih
      rw [Balanced, flatten_cons, append_assoc]
      exact kept
  rw [Balanced, returned] at balanced
  exact balanced

def someCell : Digest := .replicate 32 0

def otherCell : Digest := .replicate 32 1

/-- Two threads with room for one cell: the second evicts the cell of the first. -/
theorem usage_eq_after_eviction :
    (⟨1, AList.singleton otherCell 1, 1, [[], []]⟩ : SharedHotStore).usage = 1 := by
  apply usage_eq_of_fresh 1 [[.acquire someCell], [.acquire otherCell]] _ (by simp) _ rfl
  apply head (.step .rfl trivial (.miss 1 rfl))
  apply head (.step (.swap _ _ _) trivial (.miss 1 rfl))
  apply head (.step (.swap _ _ _) trivial (.fits (by decide)))
  apply head (.step .rfl trivial .assembled)
  apply head (.step (.swap _ _ _) trivial (.full (by decide)))
  apply head (.step (.swap _ _ _) rfl .inserted)
  apply head (.step (.swap _ _ _) trivial (.victim someCell))
  apply head (.step .rfl trivial (.removed rfl))
  apply head (.step .rfl trivial .subtracted)
  apply head (.step .rfl trivial (.fits (by decide)))
  apply head (.step .rfl trivial .assembled)
  exact .single (.step .rfl rfl .inserted)

/-- Two threads miss a cell of size one, and both add its size. -/
theorem first_acquisitions_count_twice : ∃ store, ReflTransGen (Moves fun _ _ => True)
        ⟨8, ∅, 0, [[.acquire someCell], [.acquire someCell]]⟩ store ∧
      store.threads.flatten = [] ∧ store.usage = 2 ∧ totalSize store.cells = 1 := by
  refine ⟨⟨8, AList.singleton someCell 1, 2, [[], []]⟩, ?_, rfl, rfl, rfl⟩
  apply head (.step .rfl trivial (.miss 1 rfl))
  apply head (.step (.swap _ _ _) trivial (.miss 1 rfl))
  apply head (.step .rfl trivial (.fits (by decide)))
  apply head (.step .rfl trivial .assembled)
  apply head (.step .rfl trivial .inserted)
  apply head (.step (.swap _ _ _) trivial (.fits (by decide)))
  apply head (.step .rfl trivial .assembled)
  exact .single (.step .rfl trivial .inserted)

end SharedHotStore

end AustralVM.Cas
