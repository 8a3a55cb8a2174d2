import Mathlib.Data.Nat.ModEq
import Mathlib.Tactic.Common

/-!
# Rings with free-running indices

A channel is described by everything that has been sent over it and by how much
of that has been received.  A ring of a fixed size carries a channel: the sender
and the receiver each count on without end, keep their counts modulo some number,
and use the count modulo the size as a slot.  As long as the receiver is at most
the size of the ring behind, the slots and the two counts determine what there is
to receive.
-/

variable {α : Type}

/-- Everything sent over a channel, and how much of it has been received. -/
structure Channel (α : Type) where
  sent : List α
  received : Nat
  received_le : received ≤ sent.length

namespace Channel

open List

def empty : Channel α := ⟨[], 0, Nat.le_refl 0⟩

def send (channel : Channel α) (item : α) : Channel α where
  sent := channel.sent ++ [item]
  received := channel.received
  received_le := by
    have := channel.received_le
    rw [length_append]
    omega

def outstanding (channel : Channel α) : Nat := channel.sent.length - channel.received

def next? (channel : Channel α) : Option α := channel.sent[channel.received]?

/-- The channel after what is next has been received. -/
def receive (channel : Channel α) : Channel α where
  sent := channel.sent
  received := min (channel.received + 1) channel.sent.length
  received_le := Nat.min_le_right _ _

def got (channel : Channel α) : List α := channel.sent.take channel.received

theorem sent_send (channel : Channel α) (item : α) :
    (channel.send item).sent = channel.sent ++ [item] := rfl

theorem received_send (channel : Channel α) (item : α) :
    (channel.send item).received = channel.received := rfl

theorem sent_receive (channel : Channel α) : channel.receive.sent = channel.sent := rfl

theorem outstanding_send (channel : Channel α) (item : α) :
    (channel.send item).outstanding = channel.outstanding + 1 := by
  have := channel.received_le
  simp only [outstanding, send, length_append, length_singleton]
  omega

theorem outstanding_receive_le (channel : Channel α) :
    channel.receive.outstanding ≤ channel.outstanding := by
  simp only [outstanding, receive]
  omega

theorem received_receive {channel : Channel α} (waiting : channel.outstanding ≠ 0) :
    channel.receive.received = channel.received + 1 := by
  unfold outstanding at waiting
  exact Nat.min_eq_left (by omega)

theorem outstanding_ne_zero {channel : Channel α} (isNext : channel.next? = some item) :
    channel.outstanding ≠ 0 := by
  have within := (List.getElem?_eq_some_iff.mp isNext).1
  rw [outstanding]
  omega

theorem got_send (channel : Channel α) (item : α) : (channel.send item).got = channel.got :=
  take_append_of_le_length channel.received_le

theorem got_receive {channel : Channel α} (isNext : channel.next? = some item) :
    channel.receive.got = channel.got ++ [item] := by
  rw [got, received_receive (outstanding_ne_zero isNext), take_add_one]
  change _ ++ channel.next?.toList = _
  rw [isNext]
  rfl

theorem next?_eq_none_iff {channel : Channel α} :
    channel.next? = none ↔ channel.outstanding = 0 := by
  have := channel.received_le
  rw [next?, getElem?_eq_none_iff, outstanding]
  omega

/-! ## A ring that carries a channel -/

/-- A ring carries a channel if the last items are in their slots and the counts
of both sides are kept modulo a number. -/
structure Carried (channel : Channel α) (size modulus : Nat) (slot : Nat → α)
    (sender receiver : Nat) : Prop where
  sender_eq : sender = channel.sent.length % modulus
  receiver_eq : receiver = channel.received % modulus
  fits : channel.outstanding ≤ size
  slots : ∀ (index : Nat) (item : α), channel.sent[index]? = some item →
    channel.sent.length ≤ index + size → slot (index % size) = item

namespace Carried

variable {channel : Channel α} {size modulus sender receiver : Nat} {slot slot' : Nat → α}

section

variable (carried : channel.Carried size modulus slot sender receiver)
include carried

/-- The counts of the two sides tell how much there is to receive, also when one
has started again from zero and the other has not. -/
theorem count (small : size < modulus) :
    (modulus - receiver + sender) % modulus = channel.outstanding := by
  have fits := carried.fits
  have ordered := channel.received_le
  unfold outstanding at fits ⊢
  have bound : channel.received % modulus < modulus := Nat.mod_lt _ (by omega)
  have split := Nat.div_add_mod channel.received modulus
  have total : channel.sent.length =
      channel.received + (channel.sent.length - channel.received) := by omega
  rw [carried.sender_eq, carried.receiver_eq, Nat.add_mod_mod, total]
  have regroup : modulus - channel.received % modulus +
      (channel.received + (channel.sent.length - channel.received)) =
      channel.sent.length - channel.received + modulus * (channel.received / modulus + 1) := by
    rw [Nat.mul_add]
    omega
  rw [regroup, Nat.add_mul_mod_self_left, Nat.mod_eq_of_lt (by omega)]
  omega

theorem slot_of_next (divides : size ∣ modulus) (isNext : channel.next? = some item) :
    slot (receiver % size) = item := by
  have fits := carried.fits
  have ordered := channel.received_le
  unfold outstanding at fits
  rw [carried.receiver_eq, Nat.mod_mod_of_dvd _ divides]
  exact carried.slots _ _ isNext (by omega)

theorem send (divides : size ∣ modulus) (room : channel.outstanding < size)
    (filled : slot' (sender % size) = item)
    (others : ∀ index < size, index ≠ sender % size → slot' index = slot index) :
    (channel.send item).Carried size modulus slot' ((sender + 1) % modulus) receiver where
  sender_eq := by
    rw [carried.sender_eq, Nat.mod_add_mod, Channel.send, length_append]
    rfl
  receiver_eq := carried.receiver_eq
  fits := by
    rw [outstanding_send]
    omega
  slots := by
    intro index _ found late
    rw [carried.sender_eq, Nat.mod_mod_of_dvd _ divides] at filled others
    simp only [Channel.send, length_append, length_singleton] at found late
    by_cases isLast : index = channel.sent.length
    · subst isLast
      rw [getElem?_concat_length] at found
      rw [filled]
      exact Option.some.inj found
    · have within : index < channel.sent.length := by
        have := (List.getElem?_eq_some_iff.mp found).1
        rw [length_append, length_singleton] at this
        omega
      rw [getElem?_append_left within] at found
      -- Two counts that are less than the size apart are in different slots.
      have different : index % size ≠ channel.sent.length % size := by
        intro same
        have multiple : size ∣ channel.sent.length - index :=
          (Nat.modEq_iff_dvd' (by omega)).mp same
        have := Nat.le_of_dvd (by omega) multiple
        omega
      rw [others _ (Nat.mod_lt _ (by omega)) different]
      exact carried.slots _ _ found (by omega)

theorem receive (waiting : channel.outstanding ≠ 0) :
    channel.receive.Carried size modulus slot sender ((receiver + 1) % modulus) where
  sender_eq := carried.sender_eq
  receiver_eq := by
    rw [carried.receiver_eq, Nat.mod_add_mod, received_receive waiting]
  fits := Nat.le_trans channel.outstanding_receive_le carried.fits
  slots := carried.slots

theorem of_slots (positive : 0 < size) (same : ∀ index < size, slot' index = slot index) :
    channel.Carried size modulus slot' sender receiver where
  sender_eq := carried.sender_eq
  receiver_eq := carried.receiver_eq
  fits := carried.fits
  slots := by
    intro index item found late
    rw [same _ (Nat.mod_lt _ positive)]
    exact carried.slots index item found late

end

theorem empty (size modulus : Nat) (slot : Nat → α) :
    (Channel.empty : Channel α).Carried size modulus slot 0 0 where
  sender_eq := (Nat.zero_mod _).symm
  receiver_eq := (Nat.zero_mod _).symm
  fits := Nat.zero_le _
  slots := by
    intro _ _ found
    cases found

end Carried

end Channel
