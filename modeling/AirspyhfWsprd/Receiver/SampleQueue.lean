import Mathlib.Tactic.Common
import AirspyhfWsprd.Library.RingBuffer

/-!
The bounded queue between the receiver's callback and the DSP thread
(`sample_queue.c`). A push never waits: a block that does not fit is counted, and
the next block that fits carries the count.
-/

namespace AirspyhfWsprd.Receiver

open Library

variable {α : Type*}

/-- `UINT64_MAX` -/
def uint64Max : UInt64 := 18446744073709551615

/-- Addition that stays at `UINT64_MAX` instead of wrapping around. -/
def saturatingAdd (left right : UInt64) : UInt64 :=
  if uint64Max - left < right then uint64Max else left + right

/-- `struct sample_queue_slot`, with what its part of the storage holds. -/
structure SampleQueueSlot (α : Type*) where
  samples : List α
  sampleCount : Nat
  deviceDroppedSamples : UInt64
  queueDroppedSamples : UInt64

/-- `struct sample_queue` but for its mutex and condition: a ring of slots, and the losses that
the next accepted block is to carry. -/
structure SampleQueue (α : Type*) where
  slots : Nat → SampleQueueSlot α
  blockCapacity : Nat
  slotCount : Nat
  head : Nat
  tail : Nat
  count : Nat
  pendingDeviceDrops : UInt64
  pendingQueueDrops : UInt64
  stopping : Bool

/-- `sample_queue_init`, when there is memory for it: an empty queue that is not stopped. -/
def sampleQueueInit (blockCapacity slotCount : Nat) : Option (SampleQueue α) :=
  if blockCapacity = 0 ∨ slotCount = 0 then none
  else some {
    slots := fun _ => ⟨[], 0, 0, 0⟩
    blockCapacity := blockCapacity
    slotCount := slotCount
    head := 0
    tail := 0
    count := 0
    pendingDeviceDrops := 0
    pendingQueueDrops := 0
    stopping := false}

/-- `sample_queue_reset` -/
def sampleQueueReset (queue : SampleQueue α) : SampleQueue α :=
  {queue with
    head := 0
    tail := 0
    count := 0
    pendingDeviceDrops := 0
    pendingQueueDrops := 0}

/-- `sample_queue_stop` -/
def sampleQueueStop (queue : SampleQueue α) : SampleQueue α := {queue with stopping := true}

/-- What `sample_queue_push` writes into a slot. -/
def pushedSlot (queue : SampleQueue α) (samples : List α) (deviceDroppedSamples : UInt64) :
    SampleQueueSlot α where
  samples := samples
  sampleCount := samples.length
  deviceDroppedSamples := saturatingAdd queue.pendingDeviceDrops deviceDroppedSamples
  queueDroppedSamples := queue.pendingQueueDrops

/-- `sample_queue_push` of a block of samples: the value it returns and the queue
behind it. -/
def sampleQueuePush (queue : SampleQueue α) (samples : List α) (deviceDroppedSamples : UInt64) :
    Bool × SampleQueue α :=
  if samples.length = 0 ∨ queue.stopping then (false, queue)
  else if samples.length > queue.blockCapacity ∨ queue.count = queue.slotCount then
    (false, {queue with
      pendingDeviceDrops := saturatingAdd queue.pendingDeviceDrops deviceDroppedSamples
      pendingQueueDrops := saturatingAdd queue.pendingQueueDrops (UInt64.ofNat samples.length)})
  else
    (true, {queue with
      slots := Function.update queue.slots queue.head
        (pushedSlot queue samples deviceDroppedSamples)
      pendingDeviceDrops := 0
      pendingQueueDrops := 0
      head := (queue.head + 1) % queue.slotCount
      count := queue.count + 1})

/-- The value `sample_queue_wait` returns once it does not wait any more; nothing while it
waits. -/
def sampleQueueWait (queue : SampleQueue α) : Option Bool :=
  if queue.count = 0 ∧ !queue.stopping then none
  else some (queue.count != 0 && !queue.stopping)

/-- `sample_queue_try_peek`: the slot when it returns true -/
def sampleQueueTryPeek (queue : SampleQueue α) : Option (SampleQueueSlot α) :=
  if queue.count ≠ 0 ∧ !queue.stopping then some (queue.slots queue.tail) else none

/-- `sample_queue_release` -/
def sampleQueueRelease (queue : SampleQueue α) : Bool × SampleQueue α :=
  if queue.count ≠ 0 then
    (true, {queue with tail := (queue.tail + 1) % queue.slotCount, count := queue.count - 1})
  else (false, queue)

/-- The slots as a ring that begins at `tail`. -/
def SampleQueue.ring (queue : SampleQueue α) : RingBuffer (SampleQueueSlot α) :=
  ⟨queue.slots, queue.tail, queue.count, queue.slotCount⟩

/-- The blocks in the queue, oldest first. -/
def SampleQueue.contents (queue : SampleQueue α) : List (SampleQueueSlot α) := queue.ring.contents

structure SampleQueue.WellFormed (queue : SampleQueue α) : Prop where
  ring : queue.ring.WellFormed
  head : queue.head = (queue.tail + queue.count) % queue.slotCount

theorem sampleQueueInit_wellFormed {blockCapacity slotCount : Nat} {queue : SampleQueue α}
    (h : sampleQueueInit blockCapacity slotCount = some queue) :
    queue.WellFormed ∧ queue.contents = [] ∧ queue.pendingDeviceDrops = 0 ∧
      queue.pendingQueueDrops = 0 ∧ queue.stopping = false := by
  rw [sampleQueueInit] at h
  split at h
  · cases h
  · rename_i hsizes
    obtain rfl := Option.some.inj h
    have hslots : 0 < slotCount := by omega
    exact ⟨⟨⟨hslots, Nat.zero_le _⟩, (Nat.zero_mod slotCount).symm⟩, rfl, rfl, rfl, rfl⟩

theorem sampleQueueReset_wellFormed {queue : SampleQueue α} (h : queue.WellFormed) :
    (sampleQueueReset queue).WellFormed := by
  have hslots : 0 < queue.slotCount := Nat.zero_lt_of_lt h.ring.1
  exact ⟨⟨hslots, Nat.zero_le _⟩, (Nat.zero_mod queue.slotCount).symm⟩

/-- What a push does to the queue: it is refused without a trace, it is counted as lost, or it
is appended with the losses in front of it. -/
inductive PushEffect (queue : SampleQueue α) (samples : List α) (deviceDropped : UInt64) :
    Bool × SampleQueue α → Prop where
  | refused (h : samples = [] ∨ queue.stopping = true) :
      PushEffect queue samples deviceDropped (false, queue)
  | overrun {pushed : SampleQueue α} (hsamples : samples ≠ []) (hwf : pushed.WellFormed)
      (hring : pushed.ring = queue.ring)
      (hdevice : pushed.pendingDeviceDrops =
        saturatingAdd queue.pendingDeviceDrops deviceDropped)
      (hqueue : pushed.pendingQueueDrops =
        saturatingAdd queue.pendingQueueDrops (UInt64.ofNat samples.length))
      (hstopping : pushed.stopping = queue.stopping) :
      PushEffect queue samples deviceDropped (false, pushed)
  | accepted {pushed : SampleQueue α} (hsamples : samples ≠ []) (hwf : pushed.WellFormed)
      (hcontents : pushed.contents =
        queue.contents ++ [pushedSlot queue samples deviceDropped])
      (hpending : pushed.pendingDeviceDrops = 0 ∧ pushed.pendingQueueDrops = 0)
      (htail : pushed.tail = queue.tail) (hcount : pushed.count = queue.count + 1)
      (hstopping : pushed.stopping = queue.stopping) :
      PushEffect queue samples deviceDropped (true, pushed)

/-- A push is refused, counted as an overrun, or accepted with the losses counted since the
block before it. It never waits, and in each case it says which it was. -/
theorem sampleQueuePush_effect {queue : SampleQueue α} (hwf : queue.WellFormed)
    (samples : List α) (deviceDropped : UInt64) :
    PushEffect queue samples deviceDropped (sampleQueuePush queue samples deviceDropped) := by
  rw [sampleQueuePush]
  split
  · rename_i hrefused
    exact .refused (hrefused.imp_left List.eq_nil_of_length_eq_zero)
  rename_i hrunning
  have hsamples : samples ≠ [] := by
    rintro rfl
    exact hrunning (Or.inl rfl)
  split
  · refine .overrun hsamples ⟨?_, ?_⟩ ?_ rfl rfl rfl
    · exact ⟨hwf.ring.1, hwf.ring.2⟩
    · exact hwf.head
    · rw [SampleQueue.ring, SampleQueue.ring]
  · rename_i hfits
    have hroom : queue.count < queue.slotCount := by
      have hbound := hwf.ring.2
      have hfull : queue.count ≠ queue.slotCount := fun heq => hfits (Or.inr heq)
      exact Nat.lt_of_le_of_ne hbound hfull
    have hhead : queue.head = queue.ring.slotAt queue.count := hwf.head
    have hnext : (queue.head + 1) % queue.slotCount =
        (queue.tail + (queue.count + 1)) % queue.slotCount := by
      rw [hwf.head, Nat.mod_add_mod, Nat.add_assoc]
    refine .accepted hsamples ⟨RingBuffer.push_wellFormed hwf.ring hroom
      (pushedSlot queue samples deviceDropped), hnext⟩ ?_ ⟨rfl, rfl⟩ rfl rfl rfl
    rw [SampleQueue.contents, SampleQueue.contents, ← RingBuffer.contents_push hwf.ring hroom,
      SampleQueue.ring, hhead]
    rfl

/-- The slot that a peek finds is the oldest block. -/
theorem sampleQueueTryPeek_some {queue : SampleQueue α} {slot : SampleQueueSlot α}
    (h : sampleQueueTryPeek queue = some slot) :
    queue.count ≠ 0 ∧ slot = queue.slots queue.tail := by
  rw [sampleQueueTryPeek] at h
  split at h
  · rename_i havailable
    exact ⟨havailable.1, (Option.some.inj h).symm⟩
  · cases h

theorem contents_of_count {queue : SampleQueue α} (hwf : queue.WellFormed)
    (hcount : queue.count ≠ 0) :
    queue.contents = queue.slots queue.tail :: queue.contents.tail := by
  rw [SampleQueue.contents, RingBuffer.contents_cons hwf.ring (Nat.pos_of_ne_zero hcount),
    List.tail_cons]
  rfl

/-- A release removes the oldest block. -/
theorem sampleQueueRelease_effect {queue : SampleQueue α} (hwf : queue.WellFormed)
    (hcount : queue.count ≠ 0) :
    (sampleQueueRelease queue).2.WellFormed ∧
      (sampleQueueRelease queue).2.contents = queue.contents.tail := by
  have hpos : 0 < queue.count := Nat.pos_of_ne_zero hcount
  have hhead : queue.head = ((queue.tail + 1) % queue.slotCount + (queue.count - 1)) %
      queue.slotCount := by
    rw [hwf.head, Nat.mod_add_mod, Nat.add_assoc, Nat.add_sub_cancel' hpos]
  rw [sampleQueueRelease, if_pos hcount]
  refine ⟨⟨RingBuffer.pop_wellFormed hwf.ring, hhead⟩, ?_⟩
  exact RingBuffer.contents_pop hwf.ring hpos

end AirspyhfWsprd.Receiver
