import Mathlib.Data.List.Basic

/-!
# The filter of denied system calls

`build_deny_filter` compiles a list of system calls to a classic BPF program: the number
is loaded, then compared with one entry after the other.  A comparison that succeeds
jumps over the later ones.
-/

namespace AustralVM.Sandbox

open List

/-! ## Classic BPF -/

structure SockFilter where
  code : UInt16
  jt : UInt8
  jf : UInt8
  k : UInt32

/-- Run a program on an accumulator, after a number of instructions that are jumped over.
There is no verdict if a jump leaves the program or an instruction is not one of `LD`,
`JEQ` and `RET`. -/
def runFilter (load : UInt32 → UInt32) : UInt32 → Nat → List SockFilter → Option UInt32
  | _, _, [] => none
  | acc, skip + 1, _ :: rest => runFilter load acc skip rest
  | acc, 0, ⟨code, jt, jf, k⟩ :: rest =>
    if code = 0x20 then runFilter load (load k) 0 rest
    else if code = 0x15 then runFilter load acc (if acc = k then jt else jf).toNat rest
    else if code = 0x06 then some k
    else none

theorem runFilter_append (load : UInt32 → UInt32) (acc : UInt32) (program rest : List SockFilter)
    (skip : Nat) : runFilter load acc (program.length + skip) (program ++ rest) =
      runFilter load acc skip rest := by
  induction program with
  | nil => rw [length_nil, Nat.zero_add, nil_append]
  | cons _ _ ih => rwa [length_cons, Nat.add_right_comm, cons_append, runFilter]

/-! ## The filter -/

def allow : UInt32 := 0x7fff0000

/-- `ERRNO|EPERM` -/
def eperm : UInt32 := 0x00050000 ||| 1

/-- The comparison at an index of a list of some length. -/
def denyJump (length index : Nat) (nr : Int64) : SockFilter :=
  ⟨0x15, UInt8.ofNat (length - index), 0, UInt32.ofInt nr.toInt⟩

def buildDenyFilter (denyList : List Int64) : List SockFilter :=
  ⟨0x20, 0, 0, 0⟩ :: (denyList.mapIdx (denyJump denyList.length) ++
    [⟨0x06, 0, 0, allow⟩, ⟨0x06, 0, 0, eperm⟩])

theorem runFilter_denyJumps (load : UInt32 → UInt32) (nr : UInt32) {denyList : List Int64}
    (short : denyList.length ≤ 255) :
    runFilter load nr 0 (denyList.mapIdx (denyJump denyList.length) ++
        [⟨0x06, 0, 0, allow⟩, ⟨0x06, 0, 0, eperm⟩]) =
      some (if nr ∈ denyList.map fun denied => UInt32.ofInt denied.toInt then eperm
        else allow) := by
  induction denyList with
  | nil => rfl
  | cons denied denyList ih =>
    rw [length_cons] at short
    have later : (denyJump (denyList.length + 1) <| · + 1) = denyJump denyList.length := by
      funext index nr
      rw [denyJump, Nat.add_sub_add_right, denyJump]
    rw [mapIdx_cons, length_cons, later, cons_append, denyJump, runFilter, if_neg (by decide),
      if_pos rfl, map_cons]
    simp only [mem_cons]
    by_cases isDenied : nr = UInt32.ofInt denied.toInt
    · -- The jump passes the later comparisons and the instruction that allows.
      have jump : (UInt8.ofNat (denyList.length + 1)).toNat = denyList.length + 1 :=
        UInt8.toNat_ofNat_of_lt (Nat.lt_succ_of_le short)
      have lands := runFilter_append load nr (denyList.mapIdx (denyJump denyList.length))
        [⟨0x06, 0, 0, allow⟩, ⟨0x06, 0, 0, eperm⟩] 1
      rw [length_mapIdx] at lands
      rw [if_pos isDenied, Nat.sub_zero, jump, lands, if_pos (.inl isDenied)]
      rfl
    · simp only [if_neg isDenied, or_iff_right isDenied]
      exact ih (Nat.le_of_succ_le short)

/-- For every list that the jumps have room for, the filter has a verdict on every call:
it is refused exactly if its number is in the list. -/
theorem runFilter_buildDenyFilter (denyList : List Int64) (short : denyList.length ≤ 255)
    (data : UInt32 → UInt32) : runFilter data 0 0 (buildDenyFilter denyList) =
      some (if data 0 ∈ denyList.map fun denied => UInt32.ofInt denied.toInt then eperm
        else allow) := by
  rw [buildDenyFilter, runFilter, if_pos rfl]
  exact runFilter_denyJumps data (data 0) short

theorem runFilter_buildDenyFilter_mount :
    runFilter (fun _ => 165) 0 0 (buildDenyFilter [101, 165, 166]) = some eperm :=
  runFilter_buildDenyFilter [101, 165, 166] (by decide) fun _ => 165

end AustralVM.Sandbox
