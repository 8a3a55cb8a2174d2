import AustralVM.ByteFields
import AustralVM.RunningRing
import Mathlib.Logic.Function.Basic

/-!
# The split queue of virtio

A queue is one image of memory with a table of descriptors, a ring on which the
driver offers chains of descriptors to the device, and a ring on which the device
hands them back.  Both rings have free-running indices of 16 bits.
-/

namespace AustralVM.Virtio

open ByteFields UInt16 Channel

/-! ## The image -/

def vringDescFNext : UInt16 := 0x1

def descSize : Nat := 16
def usedElemSize : Nat := 8

inductive QueueError
  | notPowerOfTwo (size : UInt16)
  | outOfRange (what : String)
  | corruptChain
  deriving DecidableEq, Repr

structure Descriptor where
  addr : UInt64
  len : UInt32
  flags : UInt16
  next : UInt16
  deriving DecidableEq, Repr

def isPowerOfTwo (size : UInt16) : Prop := 2 ^ Nat.log2 size.toNat = size.toNat

instance (size : UInt16) : Decidable (isPowerOfTwo size) := inferInstanceAs (Decidable (_ = _))

/-- A queue: its image of memory, where the rings are in it, and how far the
device and the driver have read them.  The table and the rings do not overlap. -/
structure SplitQueue where
  size : UInt16
  mem : List UInt8
  availRing : Nat
  usedRing : Nat
  nextAvail : UInt16
  lastUsed : UInt16
  powerOfTwo : isPowerOfTwo size
  table_le : descSize * size.toNat ≤ availRing
  avail_le : availRing + 6 + 2 * size.toNat ≤ usedRing
  used_le : usedRing + 6 + usedElemSize * size.toNat ≤ mem.length

open SplitQueue

namespace SplitQueue

def new (size : UInt16) : Except QueueError SplitQueue :=
  if powerOfTwo : size ≠ 0 ∧ isPowerOfTwo size then
    let availRing := descSize * size.toNat
    -- Rounded up to a multiple of four.
    let usedRing := (availRing + 6 + 2 * size.toNat + 3) / 4 * 4
    let total := usedRing + 6 + usedElemSize * size.toNat
    .ok
      { size
        mem := List.replicate total 0
        availRing
        usedRing
        nextAvail := 0
        lastUsed := 0
        powerOfTwo := powerOfTwo.2
        table_le := Nat.le_refl _
        avail_le := by omega
        used_le := by rw [List.length_replicate] }
  else .error (.notPowerOfTwo size)

def store (queue : SplitQueue) (off width value : Nat) : SplitQueue :=
  { queue with
    mem := write queue.mem off width value
    used_le := Nat.le_trans queue.used_le (le_length_write queue.mem off width value) }

def u16At (queue : SplitQueue) (off : Nat) : UInt16 := ofNat (read queue.mem off 2)

def u32At (queue : SplitQueue) (off : Nat) : UInt32 := UInt32.ofNat (read queue.mem off 4)

def u64At (queue : SplitQueue) (off : Nat) : UInt64 := UInt64.ofNat (read queue.mem off 8)

def descOffset (size index : UInt16) : Except QueueError Nat :=
  if index ≥ size then .error (.outOfRange "descriptor") else .ok (descSize * index.toNat)

def storeDesc (queue : SplitQueue) (off : Nat) (desc : Descriptor) : SplitQueue :=
  let queue := queue.store off 8 desc.addr.toNat
  let queue := queue.store (off + 8) 4 desc.len.toNat
  let queue := queue.store (off + 12) 2 desc.flags.toNat
  queue.store (off + 14) 2 desc.next.toNat

def setDesc (queue : SplitQueue) (index : UInt16) (desc : Descriptor) :
    Except QueueError SplitQueue := do
  let off ← descOffset queue.size index
  return queue.storeDesc off desc

/-! ### The driver offers, the device takes -/

def availIdx (queue : SplitQueue) : UInt16 := queue.u16At (queue.availRing + 2)

/-- Fill the slot at the index, then move the index. -/
def storeAvail (queue : SplitQueue) (head : UInt16) : SplitQueue :=
  let idx := queue.availIdx
  let slot := queue.availRing + 4 + 2 * (idx % queue.size).toNat
  let queue := queue.store slot 2 head.toNat
  queue.store (queue.availRing + 2) 2 (idx + 1).toNat

def pushAvail (queue : SplitQueue) (head : UInt16) : Except QueueError (UInt16 × SplitQueue) :=
  if head ≥ queue.size then .error (.outOfRange "head")
  else .ok (queue.availIdx + 1, queue.storeAvail head)

def availCount (queue : SplitQueue) : UInt16 := queue.availIdx - queue.nextAvail

def desc (queue : SplitQueue) (index : UInt16) : Descriptor :=
  let off := descSize * index.toNat
  { addr := queue.u64At off
    len := queue.u32At (off + 8)
    flags := queue.u16At (off + 12)
    next := queue.u16At (off + 14) }

/-- Follow a chain through a table.  `room` is how many descriptors the chain may
still have. -/
def follow (size : UInt16) (table : UInt16 → Descriptor) (room : Nat) (cur : UInt16) :
    Except QueueError (List Descriptor) := do
  let _ ← descOffset size cur
  let desc := table cur
  match room with
  | 0 => .error .corruptChain
  | room + 1 =>
    if desc.flags &&& vringDescFNext ≠ 0 then
      let chain ← follow size table room desc.next
      return desc :: chain
    else return [desc]

def popChain (queue : SplitQueue) :
    Except QueueError (Option (List Descriptor) × SplitQueue) :=
  let count := queue.availCount
  if count = 0 then .ok (none, queue)
  else if count > queue.size then .error .corruptChain
  else do
    let slot := queue.availRing + 4 + 2 * (queue.nextAvail % queue.size).toNat
    let head := queue.u16At slot
    let chain ← follow queue.size queue.desc queue.size.toNat head
    return (some chain, { queue with nextAvail := queue.nextAvail + 1 })

/-! ### The device returns, the driver reclaims -/

def usedIdx (queue : SplitQueue) : UInt16 := queue.u16At (queue.usedRing + 2)

/-- Fill the slot at the index, then move the index. -/
def storeUsed (queue : SplitQueue) (head : UInt16) (written : UInt32) : SplitQueue :=
  let idx := queue.usedIdx
  let slot := queue.usedRing + 4 + usedElemSize * (idx % queue.size).toNat
  let queue := queue.store slot 4 head.toUInt32.toNat
  let queue := queue.store (slot + 4) 4 written.toNat
  queue.store (queue.usedRing + 2) 2 (idx + 1).toNat

def pushUsed (queue : SplitQueue) (head : UInt16) (written : UInt32) :
    Except QueueError SplitQueue :=
  if head ≥ queue.size then .error (.outOfRange "head") else .ok (queue.storeUsed head written)

def popUsed (queue : SplitQueue) : Option (UInt16 × UInt32) × SplitQueue :=
  if queue.usedIdx = queue.lastUsed then (none, queue)
  else
    let slot := queue.usedRing + 4 + usedElemSize * (queue.lastUsed % queue.size).toNat
    (some ((queue.u32At slot).toUInt16, queue.u32At (slot + 4)),
      { queue with lastUsed := queue.lastUsed + 1 })

end SplitQueue

/-! ## Operations in any order -/

inductive Op
  | setDesc (index : UInt16) (desc : Descriptor)
  | pushAvail (head : UInt16)
  | popChain
  | pushUsed (head : UInt16) (written : UInt32)
  | popUsed

inductive Reply
  | failed (error : QueueError)
  | done
  | index (idx : UInt16)
  | chain (descs : Option (List Descriptor))
  | used (entry : Option (UInt16 × UInt32))
  deriving DecidableEq, Repr

namespace SplitQueue

/-- An operation on the queue.  One that fails leaves the queue as it is. -/
def step (queue : SplitQueue) : Op → Reply × SplitQueue
  | .setDesc index desc =>
    match queue.setDesc index desc with
    | .ok queue' => (.done, queue')
    | .error error => (.failed error, queue)
  | .pushAvail head =>
    match queue.pushAvail head with
    | .ok (idx, queue') => (.index idx, queue')
    | .error error => (.failed error, queue)
  | .popChain =>
    match queue.popChain with
    | .ok (descs, queue') => (.chain descs, queue')
    | .error error => (.failed error, queue)
  | .pushUsed head written =>
    match queue.pushUsed head written with
    | .ok queue' => (.done, queue')
    | .error error => (.failed error, queue)
  | .popUsed => ((.used queue.popUsed.1), queue.popUsed.2)

def run (queue : SplitQueue) : List Op → List Reply × SplitQueue
  | [] => ([], queue)
  | op :: ops =>
    let (reply, queue) := queue.step op
    let (replies, queue) := queue.run ops
    (reply :: replies, queue)

end SplitQueue

/-! ## What a queue is for -/

/-- A table of descriptors, the heads that the driver offers to the device, and
the heads that the device returns with the number of bytes it has written. -/
structure Exchange where
  size : UInt16
  table : UInt16 → Descriptor
  avail : Channel UInt16
  used : Channel (UInt16 × UInt32)

namespace Exchange

def start (size : UInt16) : Exchange where
  size
  table := fun _ => ⟨0, 0, 0, 0⟩
  avail := .empty
  used := .empty

def chain (exchange : Exchange) (head : UInt16) : Except QueueError (List Descriptor) :=
  follow exchange.size exchange.table exchange.size.toNat head

/-- Heads are sent and received in order.  A chain that cannot be followed stays
to be received. -/
def step (exchange : Exchange) : Op → Reply × Exchange
  | .setDesc index desc =>
    if index ≥ exchange.size then (.failed (.outOfRange "descriptor"), exchange)
    else (.done, { exchange with table := Function.update exchange.table index desc })
  | .pushAvail head =>
    if head ≥ exchange.size then (.failed (.outOfRange "head"), exchange)
    else
      let avail := exchange.avail.send head
      (.index (ofNat avail.sent.length), { exchange with avail })
  | .popChain =>
    match exchange.avail.next? with
    | none => (.chain none, exchange)
    | some head =>
      match exchange.chain head with
      | .ok descs => (.chain (some descs), { exchange with avail := exchange.avail.receive })
      | .error error => (.failed error, exchange)
  | .pushUsed head written =>
    if head ≥ exchange.size then (.failed (.outOfRange "head"), exchange)
    else (.done, { exchange with used := exchange.used.send (head, written) })
  | .popUsed =>
    match exchange.used.next? with
    | none => (.used none, exchange)
    | some entry => (.used (some entry), { exchange with used := exchange.used.receive })

def run (exchange : Exchange) : List Op → List Reply × Exchange
  | [] => ([], exchange)
  | op :: ops =>
    let (reply, exchange) := exchange.step op
    let (replies, exchange) := exchange.run ops
    (reply :: replies, exchange)

/-- Neither ring ever has more entries outstanding than there are slots. -/
def KeepsRoom (exchange : Exchange) : List Op → Prop
  | [] => True
  | op :: ops =>
    let next := (exchange.step op).2
    (next.avail.outstanding ≤ exchange.size.toNat ∧
      next.used.outstanding ≤ exchange.size.toNat) ∧ next.KeepsRoom ops

instance decidableKeepsRoom (exchange : Exchange) : ∀ ops, Decidable (exchange.KeepsRoom ops)
  | [] => inferInstanceAs (Decidable True)
  | op :: ops =>
    have := decidableKeepsRoom (exchange.step op).2 ops
    inferInstanceAs (Decidable (_ ∧ _))

end Exchange

/-! ## Fields of the image -/

section Size

variable {size : UInt16}

theorem size_pos (powerOfTwo : isPowerOfTwo size) : 0 < size.toNat := by
  rw [← powerOfTwo]
  exact Nat.two_pow_pos _

theorem size_dvd (powerOfTwo : isPowerOfTwo size) : size.toNat ∣ 2 ^ 16 := by
  have small : size.toNat < 2 ^ 16 := size.toNat_lt
  rw [← powerOfTwo] at small ⊢
  have exponent := (Nat.pow_lt_pow_iff_right (by omega)).mp small
  exact Nat.pow_dvd_pow 2 (Nat.le_of_lt exponent)

end Size

namespace SplitQueue

section Store

variable (queue : SplitQueue) {off width : Nat}

@[simp] theorem availRing_store (value : Nat) :
    (queue.store off width value).availRing = queue.availRing := rfl

@[simp] theorem usedRing_store (value : Nat) :
    (queue.store off width value).usedRing = queue.usedRing := rfl

def Inside (off width : Nat) : Prop :=
  off + width ≤ queue.usedRing + 6 + usedElemSize * queue.size.toNat

variable {queue}

theorem read_store (inside : queue.Inside off width) (value : Nat) :
    read (queue.store off width value).mem off width = value % 256 ^ width :=
  read_write (Nat.le_trans inside queue.used_le) value

theorem read_store_of_apart (inside : queue.Inside off width) (value : Nat)
    (apart : off + width ≤ start ∨ start + count ≤ off) :
    read (queue.store off width value).mem start count = read queue.mem start count :=
  read_write_of_apart (Nat.le_trans inside queue.used_le) value apart

theorem u16At_store (inside : queue.Inside off 2) (value : UInt16) :
    (queue.store off 2 value.toNat).u16At off = value := by
  rw [u16At, read_store inside]
  apply UInt16.toNat_inj.mp
  have := value.toNat_lt
  rw [toNat_ofNat']
  omega

end Store

def availSlot (queue : SplitQueue) (index : Nat) : UInt16 :=
  queue.u16At (queue.availRing + 4 + 2 * index)

def usedSlot (queue : SplitQueue) (index : Nat) : UInt16 × UInt32 :=
  let slot := queue.usedRing + 4 + usedElemSize * index
  ((queue.u32At slot).toUInt16, queue.u32At (slot + 4))

/-- Two images with the same layout and the same bytes in a region. -/
structure AgreesOn (queue queue' : SplitQueue) (first last : Nat) : Prop where
  size_eq : queue'.size = queue.size
  availRing_eq : queue'.availRing = queue.availRing
  usedRing_eq : queue'.usedRing = queue.usedRing
  read_eq : ∀ start count, first ≤ start → start + count ≤ last →
    read queue'.mem start count = read queue.mem start count

theorem agreesOn_store {queue : SplitQueue} (inside : queue.Inside off width)
    (apart : off + width ≤ first ∨ last ≤ off) (value : Nat) :
    queue.AgreesOn (queue.store off width value) first last where
  size_eq := rfl
  availRing_eq := rfl
  usedRing_eq := rfl
  read_eq := by
    intro _ _ _ _
    exact read_store_of_apart inside value (by omega)

namespace AgreesOn

variable {queue queue' queue'' : SplitQueue} {first last : Nat}

theorem trans (agrees : queue.AgreesOn queue' first last)
    (agrees' : queue'.AgreesOn queue'' first last) : queue.AgreesOn queue'' first last where
  size_eq := agrees'.size_eq.trans agrees.size_eq
  availRing_eq := agrees'.availRing_eq.trans agrees.availRing_eq
  usedRing_eq := agrees'.usedRing_eq.trans agrees.usedRing_eq
  read_eq := by
    intro start count after before
    rw [agrees'.read_eq start count after before, agrees.read_eq start count after before]

variable (agrees : queue.AgreesOn queue' first last)
include agrees

theorem desc_eq
    (after : first ≤ descSize * index.toNat) (before : descSize * index.toNat + descSize ≤ last) :
    queue'.desc index = queue.desc index := by
  unfold descSize at after before
  simp only [desc, u16At, u32At, u64At, descSize]
  rw [agrees.read_eq _ 8 (by omega) (by omega), agrees.read_eq _ 4 (by omega) (by omega),
    agrees.read_eq _ 2 (by omega) (by omega), agrees.read_eq _ 2 (by omega) (by omega)]

theorem availIdx_eq (after : first ≤ queue.availRing + 2) (before : queue.availRing + 4 ≤ last) :
    queue'.availIdx = queue.availIdx := by
  simp only [availIdx, u16At]
  rw [agrees.availRing_eq, agrees.read_eq _ 2 (by omega) (by omega)]

theorem availSlot_eq (after : first ≤ queue.availRing + 4 + 2 * index)
    (before : queue.availRing + 4 + 2 * index + 2 ≤ last) :
    queue'.availSlot index = queue.availSlot index := by
  simp only [availSlot, u16At]
  rw [agrees.availRing_eq, agrees.read_eq _ 2 (by omega) (by omega)]

theorem usedIdx_eq (after : first ≤ queue.usedRing + 2) (before : queue.usedRing + 4 ≤ last) :
    queue'.usedIdx = queue.usedIdx := by
  simp only [usedIdx, u16At]
  rw [agrees.usedRing_eq, agrees.read_eq _ 2 (by omega) (by omega)]

theorem usedSlot_eq (after : first ≤ queue.usedRing + 4 + usedElemSize * index)
    (before : queue.usedRing + 4 + usedElemSize * index + usedElemSize ≤ last) :
    queue'.usedSlot index = queue.usedSlot index := by
  unfold usedElemSize at after before
  simp only [usedSlot, u32At, usedElemSize]
  rw [agrees.usedRing_eq, agrees.read_eq _ 4 (by omega) (by omega),
    agrees.read_eq _ 4 (by omega) (by omega)]

end AgreesOn

/-! ## What each operation does to the image -/

section Operations

variable {queue queue' : SplitQueue}

theorem inside_desc (queue : SplitQueue) (below : index < queue.size) :
    queue.Inside (descSize * index.toNat) descSize := by
  have below := lt_iff_toNat_lt.mp below
  have table := queue.table_le
  have avail := queue.avail_le
  unfold Inside
  unfold descSize at table ⊢
  omega

theorem Inside.mono (inside : queue.Inside off width) (last : start + count ≤ off + width) :
    queue.Inside start count := by
  unfold Inside at inside ⊢
  omega

theorem Inside.store (inside : queue.Inside start count) :
    (queue.store off width value).Inside start count := inside

theorem agreesOn_storeDesc (inside : queue.Inside off descSize) (desc : Descriptor)
    (apart : off + descSize ≤ first ∨ last ≤ off) :
    queue.AgreesOn (queue.storeDesc off desc) first last := by
  have field : ∀ start count, start + count ≤ off + descSize → queue.Inside start count :=
    fun start count => inside.mono
  unfold descSize at field apart
  apply AgreesOn.trans (agreesOn_store (field off 8 (by omega)) (by omega) _)
  apply AgreesOn.trans (agreesOn_store (field (off + 8) 4 (by omega)).store (by omega) _)
  apply AgreesOn.trans (agreesOn_store (field (off + 12) 2 (by omega)).store.store (by omega) _)
  exact agreesOn_store (field (off + 14) 2 (by omega)).store.store.store (by omega) _

theorem desc_storeDesc (below : index < queue.size) (desc : Descriptor) :
    (queue.storeDesc (descSize * index.toNat) desc).desc index = desc := by
  have inside := queue.inside_desc below
  have field : ∀ start count, start + count ≤ descSize * index.toNat + descSize →
      queue.Inside start count := fun start count => inside.mono
  unfold descSize at field
  simp only [SplitQueue.desc, descSize]
  generalize 16 * index.toNat = off at field ⊢
  -- A field holds what was stored there, as the fields stored after it are apart.
  have next : read (queue.storeDesc off desc).mem (off + 14) 2 = desc.next.toNat := by
    rw [storeDesc, read_store (field (off + 14) 2 (by omega)).store.store.store]
    exact Nat.mod_eq_of_lt desc.next.toNat_lt
  have flags : read (queue.storeDesc off desc).mem (off + 12) 2 = desc.flags.toNat := by
    rw [storeDesc, read_store_of_apart (field (off + 14) 2 (by omega)).store.store.store _
        (by omega), read_store (field (off + 12) 2 (by omega)).store.store]
    exact Nat.mod_eq_of_lt desc.flags.toNat_lt
  have len : read (queue.storeDesc off desc).mem (off + 8) 4 = desc.len.toNat := by
    rw [storeDesc, read_store_of_apart (field (off + 14) 2 (by omega)).store.store.store _
        (by omega), read_store_of_apart (field (off + 12) 2 (by omega)).store.store _ (by omega),
      read_store (field (off + 8) 4 (by omega)).store]
    exact Nat.mod_eq_of_lt desc.len.toNat_lt
  have addr : read (queue.storeDesc off desc).mem off 8 = desc.addr.toNat := by
    rw [storeDesc, read_store_of_apart (field (off + 14) 2 (by omega)).store.store.store _
        (by omega), read_store_of_apart (field (off + 12) 2 (by omega)).store.store _ (by omega),
      read_store_of_apart (field (off + 8) 4 (by omega)).store _ (by omega),
      read_store (field off 8 (by omega))]
    exact Nat.mod_eq_of_lt desc.addr.toNat_lt
  simp only [u64At, u32At, u16At]
  rw [addr, len, flags, next, UInt64.ofNat_toNat, UInt32.ofNat_toNat, UInt16.ofNat_toNat,
    UInt16.ofNat_toNat]

theorem setDesc_of_lt (below : index < queue.size) (desc : Descriptor) :
    queue.setDesc index desc = .ok (queue.storeDesc (descSize * index.toNat) desc) := by
  rw [setDesc, descOffset, if_neg (by simpa using below)]
  rfl

theorem setDesc_of_ge (above : queue.size ≤ index) (desc : Descriptor) :
    queue.setDesc index desc = .error (.outOfRange "descriptor") := by
  rw [setDesc, descOffset, if_pos above]
  rfl

theorem setDesc_frame {desc : Descriptor} (isSet : queue.setDesc index desc = .ok queue') :
    queue'.desc index = desc ∧
      (∀ other < queue.size, other ≠ index → queue'.desc other = queue.desc other) ∧
      queue.AgreesOn queue' queue.availRing
        (queue.usedRing + 6 + usedElemSize * queue.size.toNat) := by
  rcases UInt16.lt_or_le index queue.size with below | above
  · rw [setDesc_of_lt below] at isSet
    cases isSet
    have inside := queue.inside_desc below
    refine ⟨desc_storeDesc below desc, ?_, ?_⟩
    · intro other _ different
      have apart : other.toNat ≠ index.toNat := fun same => different (UInt16.toNat_inj.mp same)
      rcases Nat.lt_or_ge other.toNat index.toNat with before | after
      · apply (agreesOn_storeDesc inside desc (.inr (Nat.le_refl _))).desc_eq (Nat.zero_le _)
        unfold descSize
        omega
      · have agrees : queue.AgreesOn _ _ (descSize * other.toNat + descSize) :=
          agreesOn_storeDesc inside desc (.inl (Nat.le_refl _))
        apply agrees.desc_eq _ (Nat.le_refl _)
        unfold descSize
        omega
    · apply agreesOn_storeDesc inside
      have below := lt_iff_toNat_lt.mp below
      have table := queue.table_le
      unfold descSize at table ⊢
      omega
  · rw [setDesc_of_ge above] at isSet
    cases isSet

theorem inside_availSlot (queue : SplitQueue) (below : index < queue.size.toNat) :
    queue.Inside (queue.availRing + 4 + 2 * index) 2 := by
  have avail := queue.avail_le
  unfold Inside
  omega

theorem inside_usedSlot (queue : SplitQueue) (below : index < queue.size.toNat) :
    queue.Inside (queue.usedRing + 4 + usedElemSize * index) 4 ∧
      queue.Inside (queue.usedRing + 4 + usedElemSize * index + 4) 4 := by
  unfold Inside usedElemSize
  constructor <;> omega

theorem slot_lt (queue : SplitQueue) (idx : UInt16) : (idx % queue.size).toNat < queue.size.toNat := by
  rw [UInt16.toNat_mod]
  exact Nat.mod_lt _ (size_pos queue.powerOfTwo)

theorem inside_availIdx (queue : SplitQueue) : queue.Inside (queue.availRing + 2) 2 := by
  have avail := queue.avail_le
  unfold Inside
  omega

theorem inside_usedIdx (queue : SplitQueue) : queue.Inside (queue.usedRing + 2) 2 := by
  unfold Inside
  omega

theorem agreesOn_storeAvail (head : UInt16) {first last : Nat}
    (apart : queue.usedRing ≤ first ∨ last ≤ queue.availRing) :
    queue.AgreesOn (queue.storeAvail head) first last := by
  have below := queue.slot_lt queue.availIdx
  have avail := queue.avail_le
  apply AgreesOn.trans (agreesOn_store (queue.inside_availSlot below) (by omega) _)
  exact agreesOn_store queue.inside_availIdx.store (by omega) _

theorem availIdx_storeAvail (head : UInt16) :
    (queue.storeAvail head).availIdx = queue.availIdx + 1 :=
  u16At_store queue.inside_availIdx.store _

theorem availSlot_storeAvail (head : UInt16) :
    (queue.storeAvail head).availSlot (queue.availIdx % queue.size).toNat = head := by
  have inside := queue.inside_availSlot (queue.slot_lt queue.availIdx)
  -- The index is before the slots.
  have moved : (queue.store _ 2 head.toNat).AgreesOn (queue.storeAvail head)
      (queue.availRing + 4) queue.usedRing :=
    agreesOn_store queue.inside_availIdx.store (.inl (Nat.le_refl _)) _
  have below := queue.slot_lt queue.availIdx
  have avail := queue.avail_le
  rw [moved.availSlot_eq (Nat.le_add_right _ _) (by rw [availRing_store]; omega)]
  exact u16At_store inside head

theorem availSlot_storeAvail_of_ne (head : UInt16) {index : Nat}
    (other : index ≠ (queue.availIdx % queue.size).toNat) :
    (queue.storeAvail head).availSlot index = queue.availSlot index := by
  have inside := queue.inside_availSlot (queue.slot_lt queue.availIdx)
  have filled : queue.AgreesOn _ (queue.availRing + 4 + 2 * index)
      (queue.availRing + 4 + 2 * index + 2) :=
    agreesOn_store inside (by omega) head.toNat
  have agrees := filled.trans (agreesOn_store queue.inside_availIdx.store (by omega)
    (queue.availIdx + 1).toNat)
  exact agrees.availSlot_eq (Nat.le_refl _) (Nat.le_refl _)

theorem agreesOn_storeUsed (head : UInt16) (written : UInt32) (apart : last ≤ queue.usedRing) :
    queue.AgreesOn (queue.storeUsed head written) first last := by
  have inside := queue.inside_usedSlot (queue.slot_lt queue.usedIdx)
  apply AgreesOn.trans (agreesOn_store inside.1 (.inr (by omega)) _)
  apply AgreesOn.trans (agreesOn_store inside.2.store (.inr (by omega)) _)
  exact agreesOn_store queue.inside_usedIdx.store.store (.inr (by omega)) _

theorem usedIdx_storeUsed (head : UInt16) (written : UInt32) :
    (queue.storeUsed head written).usedIdx = queue.usedIdx + 1 :=
  u16At_store queue.inside_usedIdx.store.store _

theorem usedSlot_storeUsed (head : UInt16) (written : UInt32) :
    (queue.storeUsed head written).usedSlot (queue.usedIdx % queue.size).toNat =
      (head, written) := by
  have inside := queue.inside_usedSlot (queue.slot_lt queue.usedIdx)
  -- The index is before the slots.
  have moved : ((queue.store _ 4 head.toUInt32.toNat).store _ 4 written.toNat).AgreesOn
      (queue.storeUsed head written) (queue.usedRing + 4)
      (queue.usedRing + 4 + usedElemSize * (queue.usedIdx % queue.size).toNat + usedElemSize) :=
    agreesOn_store queue.inside_usedIdx.store.store (.inl (Nat.le_refl _)) _
  rw [moved.usedSlot_eq (Nat.le_add_right _ _) (Nat.le_refl _)]
  have fits : ∀ value : UInt32, value.toNat % 256 ^ 4 = value.toNat :=
    fun value => Nat.mod_eq_of_lt value.toNat_lt
  simp only [usedSlot, u32At, usedRing_store]
  rw [read_store inside.2.store, read_store_of_apart inside.2.store _ (by omega),
    read_store inside.1, fits, fits, UInt32.ofNat_toNat, UInt32.ofNat_toNat,
    toUInt16_toUInt32]

theorem usedSlot_storeUsed_of_ne (head : UInt16) (written : UInt32)
    (other : index ≠ (queue.usedIdx % queue.size).toNat) :
    (queue.storeUsed head written).usedSlot index = queue.usedSlot index := by
  have inside := queue.inside_usedSlot (queue.slot_lt queue.usedIdx)
  have apart : ∀ off, queue.usedRing + 4 + usedElemSize * (queue.usedIdx % queue.size).toNat ≤ off →
      off + 4 ≤ queue.usedRing + 4 + usedElemSize * (queue.usedIdx % queue.size).toNat +
        usedElemSize →
      off + 4 ≤ queue.usedRing + 4 + usedElemSize * index ∨
        queue.usedRing + 4 + usedElemSize * index + usedElemSize ≤ off := by
    unfold usedElemSize
    omega
  have agrees : queue.AgreesOn (queue.storeUsed head written)
      (queue.usedRing + 4 + usedElemSize * index)
      (queue.usedRing + 4 + usedElemSize * index + usedElemSize) := by
    apply AgreesOn.trans (agreesOn_store inside.1 (apart _ (Nat.le_refl _) (by
      unfold usedElemSize; omega)) _)
    apply AgreesOn.trans (agreesOn_store inside.2.store (apart _ (by omega) (Nat.le_refl _)) _)
    exact agreesOn_store queue.inside_usedIdx.store.store (.inl (Nat.le_add_right _ _)) _
  exact agrees.usedSlot_eq (Nat.le_refl _) (Nat.le_refl _)

end Operations

end SplitQueue

/-! ## The image shows the exchange -/

/-- The table and the rings of an image are those of an exchange. -/
structure Exchange.Shown (exchange : Exchange) (queue : SplitQueue) : Prop where
  size_eq : exchange.size = queue.size
  table : ∀ index < queue.size, queue.desc index = exchange.table index
  avail : exchange.avail.Carried queue.size.toNat (2 ^ 16) queue.availSlot
    queue.availIdx.toNat queue.nextAvail.toNat
  used : exchange.used.Carried queue.size.toNat (2 ^ 16) queue.usedSlot
    queue.usedIdx.toNat queue.lastUsed.toNat

namespace SplitQueue.AgreesOn

variable {queue queue' : SplitQueue} {first last modulus receiver : Nat}

theorem desc_eq_of_table (agrees : queue.AgreesOn queue' 0 last) (before : queue.availRing ≤ last)
    (below : index < queue.size) : queue'.desc index = queue.desc index := by
  have below := lt_iff_toNat_lt.mp below
  have layout := queue.table_le
  apply agrees.desc_eq (Nat.zero_le _)
  unfold descSize at layout ⊢
  omega

theorem carried_avail (agrees : queue.AgreesOn queue' first last) (after : first ≤ queue.availRing)
    (before : queue.usedRing ≤ last) {avail : Channel UInt16}
    (carried : avail.Carried queue.size.toNat modulus queue.availSlot queue.availIdx.toNat
      receiver) :
    avail.Carried queue'.size.toNat modulus queue'.availSlot queue'.availIdx.toNat receiver := by
  have layout := queue.avail_le
  rw [agrees.size_eq, agrees.availIdx_eq (by omega) (by omega)]
  apply carried.of_slots (size_pos queue.powerOfTwo)
  intro _ _
  exact agrees.availSlot_eq (by omega) (by omega)

theorem carried_used (agrees : queue.AgreesOn queue' first last) (after : first ≤ queue.usedRing)
    (before : queue.usedRing + 6 + usedElemSize * queue.size.toNat ≤ last)
    {used : Channel (UInt16 × UInt32)}
    (carried : used.Carried queue.size.toNat modulus queue.usedSlot queue.usedIdx.toNat receiver) :
    used.Carried queue'.size.toNat modulus queue'.usedSlot queue'.usedIdx.toNat receiver := by
  unfold usedElemSize at before
  rw [agrees.size_eq, agrees.usedIdx_eq (by omega) (by omega)]
  apply carried.of_slots (size_pos queue.powerOfTwo)
  intro _ _
  apply agrees.usedSlot_eq <;> unfold usedElemSize <;> omega

end SplitQueue.AgreesOn

namespace Exchange

variable {exchange : Exchange} {queue queue' : SplitQueue}

/-- A ring with indices of 16 bits carries what is sent. -/
theorem carried_send {α : Type} {channel : Channel α} {slot slot' : Nat → α} {item : α}
    {size sender : UInt16}
    (powerOfTwo : isPowerOfTwo size) (room : channel.outstanding + 1 ≤ size.toNat)
    (carried : channel.Carried size.toNat (2 ^ 16) slot sender.toNat receiver)
    (filled : slot' (sender % size).toNat = item)
    (others : ∀ index, index ≠ (sender % size).toNat → slot' index = slot index) :
    (channel.send item).Carried size.toNat (2 ^ 16) slot' (sender + 1).toNat receiver := by
  rw [UInt16.toNat_mod] at filled others
  rw [UInt16.toNat_add]
  exact carried.send (size_dvd powerOfTwo) room filled fun index _ => others index

theorem follow_congr {size : UInt16} {table table' : UInt16 → Descriptor}
    (same : ∀ index < size, table index = table' index) (room : Nat) (cur : UInt16) :
    follow size table room cur = follow size table' room cur := by
  induction room generalizing cur with
  | zero =>
    unfold follow descOffset
    by_cases above : cur ≥ size <;> simp [above]
  | succ _ ih =>
    unfold follow descOffset
    by_cases above : cur ≥ size
    · simp [above]
      rfl
    · rw [same cur (by simpa using above)]
      simp only [ih]

/-- An operation answers the same on both, and the image still shows the exchange. -/
def Simulates (exchange : Exchange) (queue : SplitQueue) (op : Op) : Prop :=
  (queue.step op).1 = (exchange.step op).1 ∧ (exchange.step op).2.Shown (queue.step op).2

namespace Shown

section

variable (shown : exchange.Shown queue)
include shown

theorem simulates_setDesc (index : UInt16) (desc : Descriptor) :
    exchange.Simulates queue (.setDesc index desc) := by
  unfold Simulates step SplitQueue.step
  rw [shown.size_eq]
  rcases UInt16.lt_or_le index queue.size with below | above
  · have isSet := setDesc_of_lt below desc
    obtain ⟨own, others, rings⟩ := setDesc_frame isSet
    have layout := queue.avail_le
    simp only [isSet, if_neg (UInt16.not_le.mpr below)]
    refine ⟨trivial, rfl, ?_, ?_, ?_⟩
    · intro other otherBelow
      change _ = Function.update exchange.table index desc other
      by_cases same : other = index
      · rw [same, own, Function.update_self]
      · rw [others other otherBelow same, Function.update_of_ne same]
        exact shown.table other otherBelow
    · exact rings.carried_avail (Nat.le_refl _) (by omega) shown.avail
    · exact rings.carried_used (by omega) (Nat.le_refl _) shown.used
  · simp only [setDesc_of_ge above desc, if_pos above]
    exact ⟨trivial, shown⟩

theorem simulates_pushAvail (head : UInt16)
    (room : (exchange.step (.pushAvail head)).2.avail.outstanding ≤ queue.size.toNat) :
    exchange.Simulates queue (.pushAvail head) := by
  unfold Simulates
  unfold step at room ⊢
  unfold SplitQueue.step SplitQueue.pushAvail
  rw [shown.size_eq] at room ⊢
  rcases UInt16.lt_or_le head queue.size with below | above
  · simp only [if_neg (UInt16.not_le.mpr below), outstanding_send] at room ⊢
    have layout := queue.avail_le
    have table : queue.AgreesOn (queue.storeAvail head) 0 queue.availRing :=
      agreesOn_storeAvail head (.inr (Nat.le_refl _))
    have used : queue.AgreesOn (queue.storeAvail head) queue.usedRing
        (queue.usedRing + 6 + usedElemSize * queue.size.toNat) :=
      agreesOn_storeAvail head (.inl (Nat.le_refl _))
    have carried := carried_send queue.powerOfTwo room shown.avail
      (availSlot_storeAvail head)
      fun index => availSlot_storeAvail_of_ne head
    have counted : queue.availIdx + 1 = ofNat (exchange.avail.send head).sent.length := by
      apply UInt16.toNat_inj.mp
      rw [carried.sender_eq, UInt16.toNat_ofNat']
    refine ⟨congrArg Reply.index counted, rfl, ?_, ?_, ?_⟩
    · intro index below
      exact (table.desc_eq_of_table (Nat.le_refl _) below).trans (shown.table index below)
    · simp only [availIdx_storeAvail]
      exact carried
    · exact used.carried_used (Nat.le_refl _) (Nat.le_refl _) shown.used
  · simp only [if_pos above]
    exact ⟨trivial, shown⟩

theorem simulates_pushUsed (head : UInt16) (written : UInt32)
    (room : (exchange.step (.pushUsed head written)).2.used.outstanding ≤ queue.size.toNat) :
    exchange.Simulates queue (.pushUsed head written) := by
  unfold Simulates
  unfold step at room ⊢
  unfold SplitQueue.step SplitQueue.pushUsed
  rw [shown.size_eq] at room ⊢
  rcases UInt16.lt_or_le head queue.size with below | above
  · simp only [if_neg (UInt16.not_le.mpr below), outstanding_send] at room ⊢
    have before : queue.AgreesOn (queue.storeUsed head written) 0 queue.usedRing :=
      agreesOn_storeUsed head written (Nat.le_refl _)
    have layout := queue.avail_le
    have carried := carried_send queue.powerOfTwo room shown.used
      (usedSlot_storeUsed head written)
      fun index => usedSlot_storeUsed_of_ne head written
    refine ⟨trivial, rfl, ?_, ?_, ?_⟩
    · intro index below
      exact (before.desc_eq_of_table (by omega) below).trans (shown.table index below)
    · exact before.carried_avail (Nat.zero_le _) (Nat.le_refl _) shown.avail
    · simp only [usedIdx_storeUsed]
      exact carried
  · simp only [if_pos above]
    exact ⟨trivial, shown⟩

theorem simulates_popChain : exchange.Simulates queue .popChain := by
  have small : queue.size.toNat < 2 ^ 16 := queue.size.toNat_lt
  have count : queue.availCount.toNat = exchange.avail.outstanding := by
    rw [availCount, UInt16.toNat_sub]
    exact shown.avail.count small
  have fits := shown.avail.fits
  unfold Simulates step SplitQueue.step SplitQueue.popChain
  cases isNext : exchange.avail.next? with
  | none =>
    have zero : queue.availCount = 0 := by
      apply UInt16.toNat_inj.mp
      rw [count, next?_eq_none_iff.mp isNext]
      rfl
    simp only [zero, if_true]
    exact ⟨trivial, shown⟩
  | some head =>
    have waiting := outstanding_ne_zero isNext
    have nonzero : queue.availCount ≠ 0 := by
      intro zero
      rw [zero] at count
      exact waiting count.symm
    have within : ¬ queue.availCount > queue.size := by
      rw [gt_iff_lt, lt_iff_toNat_lt, count]
      omega
    have front : queue.u16At
        (queue.availRing + 4 + 2 * (queue.nextAvail % queue.size).toNat) = head := by
      rw [UInt16.toNat_mod]
      exact shown.avail.slot_of_next (size_dvd queue.powerOfTwo) isNext
    have followed : follow queue.size queue.desc queue.size.toNat head =
        exchange.chain head := by
      rw [chain, shown.size_eq]
      exact follow_congr shown.table _ _
    simp only [if_neg nonzero, if_neg within, front, followed]
    cases exchange.chain head with
    | error => exact ⟨rfl, shown⟩
    | ok =>
      have moved : (queue.nextAvail + 1).toNat = (queue.nextAvail.toNat + 1) % 2 ^ 16 :=
        UInt16.toNat_add _ _
      refine ⟨rfl, shown.size_eq, shown.table, ?_, shown.used⟩
      change Channel.Carried _ _ _ _ _ (queue.nextAvail + 1).toNat
      rw [moved]
      exact shown.avail.receive waiting

theorem simulates_popUsed : exchange.Simulates queue .popUsed := by
  have count := shown.used.count queue.size.toNat_lt
  have idx := queue.usedIdx.toNat_lt
  have last := queue.lastUsed.toNat_lt
  unfold Simulates step SplitQueue.step SplitQueue.popUsed
  cases isNext : exchange.used.next? with
  | none =>
    have same : queue.usedIdx = queue.lastUsed := by
      rw [next?_eq_none_iff.mp isNext] at count
      apply UInt16.toNat_inj.mp
      omega
    simp only [if_pos same]
    exact ⟨trivial, shown⟩
  | some entry =>
    have waiting := outstanding_ne_zero isNext
    have different : queue.usedIdx ≠ queue.lastUsed := by
      intro same
      rw [same] at count
      omega
    have front : queue.usedSlot (queue.lastUsed % queue.size).toNat = entry := by
      rw [UInt16.toNat_mod]
      exact shown.used.slot_of_next (size_dvd queue.powerOfTwo) isNext
    have moved : (queue.lastUsed + 1).toNat = (queue.lastUsed.toNat + 1) % 2 ^ 16 :=
      UInt16.toNat_add _ _
    simp only [if_neg different]
    refine ⟨congrArg (Reply.used ∘ some) front, shown.size_eq, shown.table, shown.avail, ?_⟩
    change Channel.Carried _ _ _ _ _ (queue.lastUsed + 1).toNat
    rw [moved]
    exact shown.used.receive waiting

theorem simulates (op : Op)
    (room : (exchange.step op).2.avail.outstanding ≤ queue.size.toNat ∧
      (exchange.step op).2.used.outstanding ≤ queue.size.toNat) : exchange.Simulates queue op := by
  cases op with
  | setDesc index desc => exact shown.simulates_setDesc index desc
  | pushAvail head => exact shown.simulates_pushAvail head room.1
  | popChain => exact shown.simulates_popChain
  | pushUsed head written => exact shown.simulates_pushUsed head written room.2
  | popUsed => exact shown.simulates_popUsed

theorem run (ops : List Op) (room : exchange.KeepsRoom ops) :
    (queue.run ops).1 = (exchange.run ops).1 ∧ (exchange.run ops).2.Shown (queue.run ops).2 := by
  induction ops generalizing exchange queue with
  | nil => exact ⟨rfl, shown⟩
  | cons op _ ih =>
    have stepRoom := room.1
    rw [shown.size_eq] at stepRoom
    have simulated := shown.simulates op stepRoom
    have rest := ih simulated.2 room.2
    simp only [SplitQueue.run, Exchange.run]
    rw [simulated.1, rest.1]
    exact ⟨rfl, rest.2⟩

end

theorem start {size : UInt16} (created : SplitQueue.new size = .ok queue) :
    (Exchange.start size).Shown queue := by
  unfold SplitQueue.new at created
  split at created
  · cases created
    refine ⟨rfl, ?_, ?_, ?_⟩
    · intro _ _
      simp only [desc, u64At, u32At, u16At, read_replicate_zero]
      rfl
    · simp only [availIdx, u16At, read_replicate_zero]
      exact Channel.Carried.empty _ _ _
    · simp only [usedIdx, u16At, read_replicate_zero]
      exact Channel.Carried.empty _ _ _
  · cases created

end Shown

/-! ## Nothing is lost or delivered twice -/

def offered (size : UInt16) : Op → Option UInt16
  | .pushAvail head => if head ≥ size then none else some head
  | _ => none

def returned (size : UInt16) : Op → Option (UInt16 × UInt32)
  | .pushUsed head written => if head ≥ size then none else some (head, written)
  | _ => none

def delivered : Reply → Option (List Descriptor)
  | .chain descs => descs
  | _ => none

def reclaimed : Reply → Option (UInt16 × UInt32)
  | .used entry => entry
  | _ => none

theorem step_spec (exchange : Exchange) (op : Op) : (exchange.step op).2.size = exchange.size ∧
      (exchange.step op).2.avail.sent = exchange.avail.sent ++ (offered exchange.size op).toList ∧
      (exchange.step op).2.used.sent = exchange.used.sent ++ (returned exchange.size op).toList ∧
      (exchange.step op).2.avail.received =
        exchange.avail.received + (delivered (exchange.step op).1).toList.length ∧
      (exchange.step op).2.used.got =
        exchange.used.got ++ (reclaimed (exchange.step op).1).toList := by
  cases op with unfold step
  | setDesc index =>
    by_cases above : index ≥ exchange.size <;> simp [above, offered, returned, delivered, reclaimed]
  | pushAvail head =>
    by_cases above : head ≥ exchange.size <;>
      simp [above, offered, returned, delivered, reclaimed, sent_send, received_send]
  | popChain =>
    cases isNext : exchange.avail.next? with
    | none => simp [offered, returned, delivered, reclaimed]
    | some head =>
      have waiting := outstanding_ne_zero isNext
      cases followed : exchange.chain head <;>
        simp [followed, offered, returned, delivered, reclaimed,
          received_receive waiting, sent_receive]
  | pushUsed head =>
    by_cases above : head ≥ exchange.size <;>
      simp [above, offered, returned, delivered, reclaimed, got_send, sent_send]
  | popUsed =>
    cases isNext : exchange.used.next? <;>
      simp [offered, returned, delivered, reclaimed, got_receive, isNext, sent_receive]

theorem run_spec (exchange : Exchange) (ops : List Op) : (exchange.run ops).2.avail.sent =
        exchange.avail.sent ++ ops.filterMap (offered exchange.size) ∧
      (exchange.run ops).2.used.sent =
        exchange.used.sent ++ ops.filterMap (returned exchange.size) ∧
      (exchange.run ops).2.avail.received =
        exchange.avail.received + ((exchange.run ops).1.filterMap delivered).length ∧
      (exchange.run ops).2.used.got =
        exchange.used.got ++ (exchange.run ops).1.filterMap reclaimed := by
  have split : ∀ {α β : Type} (f : α → Option β) (item : α) (items : List α),
      (item :: items).filterMap f = (f item).toList ++ items.filterMap f := by
    intro _ _ f item _
    cases found : f item <;> simp [found]
  induction ops generalizing exchange with
  | nil => simp [run]
  | cons op _ ih =>
    obtain ⟨size, sent, returns, received, got⟩ := exchange.step_spec op
    obtain ⟨sents, returnss, receiveds, gots⟩ := ih (exchange.step op).2
    simp only [run, split, List.length_append]
    rw [sents, returnss, receiveds, gots, size, sent, returns, received, got]
    simp only [List.append_assoc, Nat.add_assoc, and_self]

/-- **A queue is a table and two channels.**  Along every run of the driver and
the device that leaves room on the rings, the image answers as the exchange: each
chain that is taken is that of the next head offered, each entry that is reclaimed
is the next one returned.  Setting a descriptor changes no other descriptor and no
ring. -/
theorem queue_is_exchange {size : UInt16} {queue : SplitQueue}
    (created : new size = .ok queue) (ops : List Op) (room : (start size).KeepsRoom ops) :
    (queue.run ops).1 = ((start size).run ops).1 ∧
      ((start size).run ops).2.Shown (queue.run ops).2 ∧
      ((start size).run ops).2.avail.sent = ops.filterMap (offered size) ∧
      ((start size).run ops).2.avail.received = ((queue.run ops).1.filterMap delivered).length ∧
      ((start size).run ops).2.used.sent = ops.filterMap (returned size) ∧
      ((start size).run ops).2.used.got = (queue.run ops).1.filterMap reclaimed ∧
      ∀ index desc queue', (queue.run ops).2.setDesc index desc = .ok queue' →
        queue'.desc index = desc ∧ (∀ other < (queue.run ops).2.size, other ≠ index →
          queue'.desc other = (queue.run ops).2.desc other) ∧
        (∀ slot < (queue.run ops).2.size.toNat,
          queue'.availSlot slot = (queue.run ops).2.availSlot slot ∧
            queue'.usedSlot slot = (queue.run ops).2.usedSlot slot) ∧
        queue'.availIdx = (queue.run ops).2.availIdx ∧
        queue'.usedIdx = (queue.run ops).2.usedIdx := by
  have simulated := (Shown.start created).run ops room
  obtain ⟨sent, returns, received, got⟩ := (start size).run_spec ops
  refine ⟨simulated.1, simulated.2, sent, ?_, returns, ?_, ?_⟩
  · rw [received, simulated.1]
    exact Nat.zero_add _
  · rw [got, simulated.1]
    rfl
  · generalize (queue.run ops).2 = reached
    intro _ _ _ isSet
    obtain ⟨own, others, rings⟩ := setDesc_frame isSet
    have layout := reached.avail_le
    refine ⟨own, others, ?_, rings.availIdx_eq (by omega) (by omega),
      rings.usedIdx_eq (by omega) (by omega)⟩
    intro _ _
    constructor
    · exact rings.availSlot_eq (by omega) (by omega)
    · apply rings.usedSlot_eq <;> unfold usedElemSize <;> omega

/-- Two chains go to the device and come back over a ring of two slots. -/
theorem queue_is_exchange_at_roundTrip : ∃ queue, new 2 = .ok queue ∧
      (queue.run [.setDesc 0 ⟨7, 64, 1, 1⟩, .setDesc 1 ⟨9, 8, 0, 0⟩, .pushAvail 0, .pushAvail 1,
        .popChain, .popChain, .pushUsed 1 5, .pushAvail 0, .popUsed]).1 =
      ((start 2).run [.setDesc 0 ⟨7, 64, 1, 1⟩, .setDesc 1 ⟨9, 8, 0, 0⟩, .pushAvail 0,
        .pushAvail 1, .popChain, .popChain, .pushUsed 1 5, .pushAvail 0, .popUsed]).1 := by
  refine ⟨_, rfl, ?_⟩
  exact (queue_is_exchange rfl _ (by decide)).1

end Exchange

end AustralVM.Virtio
