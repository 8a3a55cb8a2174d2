import AustralVM.SplitQueue

/-!
# Chains in a table of descriptors

The table is written by the driver, so that a link may lead out of it or back to
a descriptor that was passed before.  The device follows the links in place, and
gives up once it has more descriptors than the table.
-/

namespace AustralVM.Virtio

/-- The descriptors that the links of a table lead through from an index. -/
inductive ChainFrom (size : UInt16) (table : UInt16 → Descriptor) :
    UInt16 → List Descriptor → Prop
  | last {cur : UInt16} : cur < size → (table cur).flags &&& vringDescFNext = 0 →
      ChainFrom size table cur [table cur]
  | link {cur : UInt16} {rest : List Descriptor} : cur < size →
      (table cur).flags &&& vringDescFNext ≠ 0 →
      ChainFrom size table (table cur).next rest → ChainFrom size table cur (table cur :: rest)

namespace SplitQueue

/-- The head of the chain that the device takes next. -/
def nextHead (queue : SplitQueue) : UInt16 :=
  queue.availSlot (queue.nextAvail % queue.size).toNat

/-- The loop of `pop_chain`, with the queue that it leaves. -/
def popLoop (queue : SplitQueue) (cur : UInt16) (chain : List Descriptor) :
    Except QueueError (Option (List Descriptor)) × SplitQueue :=
  match descOffset queue.size cur with
  | .error error => (.error error, queue)
  | .ok _ =>
    let desc := queue.desc cur
    if chain.length + 1 > queue.size.toNat then (.error .corruptChain, queue)
    else if desc.flags &&& vringDescFNext ≠ 0 then queue.popLoop desc.next (chain ++ [desc])
    else (.ok (some (chain ++ [desc])), { queue with nextAvail := queue.nextAvail + 1 })
termination_by queue.size.toNat - chain.length
decreasing_by
  rw [List.length_append, List.length_singleton]
  omega

/-- `pop_chain` with the queue that it leaves, also when it fails. -/
def popChainInPlace (queue : SplitQueue) :
    Except QueueError (Option (List Descriptor)) × SplitQueue :=
  let count := queue.availCount
  if count = 0 then (.ok none, queue)
  else if count > queue.size then (.error .corruptChain, queue)
  else queue.popLoop queue.nextHead []

/-! ## The loop -/

section Follow

variable {size cur : UInt16} {table : UInt16 → Descriptor} {room : Nat} {chain : List Descriptor}

theorem follow_of_ge (above : cur ≥ size) :
    follow size table room cur = .error (.outOfRange "descriptor") := by
  rw [follow, descOffset, if_pos above]
  rfl

theorem follow_zero (below : ¬ cur ≥ size) : follow size table 0 cur = .error .corruptChain := by
  rw [follow, descOffset, if_neg below]
  rfl

theorem follow_succ (below : ¬ cur ≥ size) : follow size table (room + 1) cur =
      if (table cur).flags &&& vringDescFNext ≠ 0 then
        (table cur :: ·) <$> follow size table room (table cur).next else .ok [table cur] := by
  rw [follow, descOffset, if_neg below, map_eq_pure_bind]
  rfl

theorem follow_eq_ok_iff : follow size table room cur = .ok chain ↔
      ChainFrom size table cur chain ∧ chain.length ≤ room := by
  induction room generalizing cur chain with
  | zero =>
    have failed : follow size table 0 cur ≠ .ok chain := by
      by_cases above : cur ≥ size
      · simp [follow_of_ge above]
      · simp [follow_zero above]
    refine ⟨fun followed => absurd followed failed, fun ⟨isChain, short⟩ => ?_⟩
    cases isChain <;> simp at short
  | succ room ih =>
    by_cases above : cur ≥ size
    · rw [follow_of_ge above]
      refine ⟨nofun, fun ⟨isChain, _⟩ => ?_⟩
      cases isChain <;> exact absurd above (by simpa)
    · rw [follow_succ above]
      have below : cur < size := by simpa using above
      by_cases isLast : (table cur).flags &&& vringDescFNext = 0
      · rw [if_neg (not_not.mpr isLast)]
        constructor
        · intro followed
          cases followed
          exact ⟨.last below isLast, by simp⟩
        · rintro ⟨isChain, -⟩
          cases isChain with
          | last => rfl
          | link _ hasNext => exact absurd isLast hasNext
      · rw [if_pos isLast]
        constructor
        · intro followed
          cases rest : follow size table room (table cur).next with
          | error => simp [rest] at followed
          | ok =>
            obtain ⟨isRest, short⟩ := ih.mp rest
            rw [rest] at followed
            cases followed
            exact ⟨.link below isLast isRest, Nat.succ_le_succ short⟩
        · rintro ⟨isChain, short⟩
          cases isChain with
          | last _ isEnd => exact absurd isEnd isLast
          | link _ _ isRest =>
            rw [ih.mpr ⟨isRest, Nat.le_of_succ_le_succ short⟩]
            rfl

end Follow

/-- How the result of following a chain is reported, with the queue that is left. -/
def report (queue : SplitQueue) (before : List Descriptor) :
    Except QueueError (List Descriptor) → Except QueueError (Option (List Descriptor)) × SplitQueue
  | .ok chain => (.ok (some (before ++ chain)), { queue with nextAvail := queue.nextAvail + 1 })
  | .error error => (.error error, queue)

theorem report_cons (queue : SplitQueue) (before : List Descriptor) (desc : Descriptor)
    (followed : Except QueueError (List Descriptor)) :
    queue.report before ((desc :: ·) <$> followed) = queue.report (before ++ [desc]) followed := by
  cases followed with
  | error => rfl
  | ok => simp [report, Functor.map, Except.map]

theorem popLoop_eq (queue : SplitQueue) (sizeEq : queue.size.toNat = chain.length + room) :
    queue.popLoop cur chain = queue.report chain (follow queue.size queue.desc room cur) := by
  -- the room that is left in the chain decreases with every descriptor
  induction room generalizing cur chain with
  | zero =>
    rw [popLoop, descOffset]
    by_cases above : cur ≥ queue.size
    · rw [if_pos above, follow_of_ge above]
      rfl
    · rw [if_neg above, follow_zero above]
      simp only [gt_iff_lt]
      rw [if_pos (by omega)]
      rfl
  | succ room ih =>
    rw [popLoop, descOffset]
    by_cases above : cur ≥ queue.size
    · rw [if_pos above, follow_of_ge above]
      rfl
    · rw [if_neg above, follow_succ above]
      have fits : ¬ chain.length + 1 > queue.size.toNat := by omega
      have longer : queue.size.toNat = (chain ++ [queue.desc cur]).length + room := by
        rw [List.length_append, List.length_singleton]
        omega
      simp only [fits, if_false, ih longer]
      split
      · rw [report_cons]
      · rfl

theorem popChain_eq (queue : SplitQueue) (someAvailable : queue.availCount ≠ 0)
    (fewAvailable : ¬ queue.availCount > queue.size) :
    queue.popChain = (fun chain => (some chain, { queue with nextAvail := queue.nextAvail + 1 })) <$>
      follow queue.size queue.desc queue.size.toNat queue.nextHead := by
  simp only [popChain, someAvailable, fewAvailable, if_false]
  rw [map_eq_pure_bind]
  rfl

/-- In place or not, the device takes the same chain. -/
theorem popChainInPlace_eq (queue : SplitQueue) : queue.popChainInPlace =
      match queue.popChain with
      | .ok (chain, after) => (.ok chain, after)
      | .error error => (.error error, queue) := by
  by_cases noneAvailable : queue.availCount = 0
  · simp [popChainInPlace, popChain, noneAvailable]
  by_cases manyAvailable : queue.availCount > queue.size
  · simp [popChainInPlace, popChain, noneAvailable, manyAvailable]
  · rw [popChain_eq queue noneAvailable manyAvailable]
    simp only [popChainInPlace, noneAvailable, manyAvailable, if_false]
    rw [popLoop_eq queue (by simp : queue.size.toNat = [].length + queue.size.toNat)]
    cases follow queue.size queue.desc queue.size.toNat queue.nextHead <;> rfl

/-- **Following a chain in place.**  Whatever is in the table, the device stops.  When it
fails, it leaves the queue as it was.  With between one and `size` entries available it
takes the chain from the next head exactly if that chain stays in the table and has at
most `size` descriptors. -/
theorem pop_chain_follows (queue : SplitQueue) :
    (∀ error after, queue.popChainInPlace = (.error error, after) → after = queue) ∧
      (queue.availCount ≠ 0 → queue.availCount ≤ queue.size →
        ∀ result after, queue.popChainInPlace = (.ok result, after) ↔
          ∃ chain, ChainFrom queue.size queue.desc queue.nextHead chain ∧
            chain.length ≤ queue.size.toNat ∧ result = some chain ∧
            after = { queue with nextAvail := queue.nextAvail + 1 }) := by
  constructor
  · intro _ _ failed
    rw [popChainInPlace_eq] at failed
    cases popped : queue.popChain <;> simp_all
  · intro someAvailable fewAvailable _ _
    rw [popChainInPlace_eq, popChain_eq queue someAvailable (by simpa using fewAvailable)]
    cases followed : follow queue.size queue.desc queue.size.toNat queue.nextHead with
    | error =>
      refine ⟨nofun, fun ⟨chain, isChain, short, _⟩ => ?_⟩
      have isOk := follow_eq_ok_iff.mpr ⟨isChain, short⟩
      rw [followed] at isOk
      cases isOk
    | ok chain =>
      have isChain := follow_eq_ok_iff.mp followed
      constructor
      · intro taken
        cases taken
        exact ⟨chain, isChain.1, isChain.2, rfl, rfl⟩
      · rintro ⟨_, isOther, short, rfl, rfl⟩
        have same := follow_eq_ok_iff.mpr ⟨isOther, short⟩
        rw [followed] at same
        cases same
        rfl

/-- Two linked descriptors in a table of two, offered at the first. -/
def twoLinked (queue : SplitQueue) : SplitQueue :=
  ((queue.storeDesc 0 ⟨7, 64, 1, 1⟩).storeDesc 16 ⟨9, 8, 0, 0⟩).storeAvail 0

theorem pop_chain_follows_at_twoLinked :
    ∃ queue, new 2 = .ok queue ∧ queue.twoLinked.popChainInPlace =
      (.ok (some [⟨7, 64, 1, 1⟩, ⟨9, 8, 0, 0⟩]), { queue.twoLinked with nextAvail := 1 }) := by
  refine ⟨_, rfl, ?_⟩
  refine (pop_chain_follows _).2 (by decide +kernel) (by decide +kernel) _ _ |>.mpr ?_
  refine ⟨_, .link (by decide +kernel) (by decide +kernel)
    (.last (by decide +kernel) (by decide +kernel)), by decide +kernel, ?_, ?_⟩
  · decide +kernel
  · rfl

end SplitQueue

end AustralVM.Virtio
