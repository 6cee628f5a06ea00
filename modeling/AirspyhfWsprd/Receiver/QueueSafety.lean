import AirspyhfWsprd.Receiver.Threads

/-!
The input queue between the callback, the DSP thread and main. The DSP thread reads a
slot without the queue's mutex; the slot is safe because it still counts as occupied,
and because main resets the queue only under `dsp_mutex`.
-/

namespace AirspyhfWsprd.Receiver

open Library

variable {K : Type*}

/-- The DSP thread has processed the slot that it holds. -/
def DspPoint.slotProcessed : DspPoint K → Bool
  | .processed _ _ _ | .releasing _ _ => true
  | .idle | .awake | .peeked _ _ | .exited => false

/-- The blocks in the queue that have not been processed. -/
def unprocessed (s : ReceiverRun K) : List (Block K) :=
  if s.dsp.slotProcessed then s.queue.contents.tail else s.queue.contents

/-- The invariant of the queue and the DSP thread. -/
structure QueueInv (s : ReceiverRun K) : Prop where
  wellFormed : s.queue.WellFormed
  peeked : ∀ index slot, s.dsp.slot = some (index, slot) →
    s.queue.count ≠ 0 ∧ index = s.queue.tail ∧ slot = s.queue.slots s.queue.tail
  order : s.accepted = (s.handled ++ unprocessed s).map (·.samples)
  counts : ∀ block ∈ s.handled ++ unprocessed s, block.sampleCount = block.samples.length

theorem slotProcessed_slot {dsp : DspPoint K} (h : dsp.slotProcessed = true) :
    ∃ index slot, dsp.slot = some (index, slot) := by
  cases dsp with
  | processed index slot frameComplete => exact ⟨index, slot, rfl⟩
  | releasing index slot => exact ⟨index, slot, rfl⟩
  | idle | awake | peeked | exited => cases h

section Pushes

variable {queue pushed : SampleQueue (ReceivedSample K)} {slot : Block K}

/-- The oldest block stays where it is when another one is pushed. -/
theorem push_keeps_tail (hwf : queue.WellFormed) (hpushed : pushed.WellFormed)
    (hcontents : pushed.contents = queue.contents ++ [slot]) (hcount : queue.count ≠ 0)
    (hcount' : pushed.count ≠ 0) :
    pushed.slots pushed.tail = queue.slots queue.tail := by
  rw [contents_of_count hwf hcount, contents_of_count hpushed hcount', List.cons_append]
    at hcontents
  exact (List.cons.inj hcontents).1

theorem unprocessed_push (hwf : queue.WellFormed)
    (hcontents : pushed.contents = queue.contents ++ [slot]) {processed : Bool}
    (hcount : processed = true → queue.count ≠ 0) :
    (if processed then pushed.contents.tail else pushed.contents) =
      (if processed then queue.contents.tail else queue.contents) ++ [slot] := by
  cases processed with
  | false => exact hcontents
  | true =>
      have hne : queue.contents ≠ [] := by
        rw [contents_of_count hwf (hcount rfl)]
        exact List.cons_ne_nil _ _
      simp only [if_true, hcontents]
      exact List.tail_append_of_ne_nil hne

end Pushes

section Steps

variable {s t : ReceiverRun K}

theorem QueueInv.processed_count (hinv : QueueInv s) (h : s.dsp.slotProcessed = true) :
    s.queue.count ≠ 0 := by
  obtain ⟨index, slot, hslot⟩ := slotProcessed_slot h
  exact (hinv.peeked index slot hslot).1

/-- A push that the queue accepts adds its block behind those that wait to be processed, with
the losses counted before it; any other push leaves them as they are. -/
theorem unprocessed_callback (hinv : QueueInv s) (samples : List (K × K))
    (droppedSamples : UInt64) :
    unprocessed (rxCallback s samples droppedSamples) =
      if (rxPush s.queue (received s samples) droppedSamples).1 then
        unprocessed s ++ [pushedSlot s.queue (received s samples) droppedSamples]
      else unprocessed s := by
  have heffect := rxPush_effect hinv.wellFormed (received s samples) droppedSamples
  rw [rxCallback, unprocessed]
  generalize rxPush s.queue (received s samples) droppedSamples = result at heffect
  cases heffect with
  | refused => rfl
  | @overrun pushed hsamples hwf hring hdevice hqueue hstopping =>
      have hcontents : pushed.contents = s.queue.contents := congrArg RingBuffer.contents hring
      dsimp only
      rw [hcontents]
      rfl
  | @accepted pushed hsamples hwf hcontents hpending htail hcount hstopping =>
      exact unprocessed_push hinv.wellFormed hcontents hinv.processed_count

/-- The callback keeps the invariant. It writes behind the blocks in the queue, so the slot
that the DSP thread holds stays what was peeked. -/
theorem callback_queueInv (hinv : QueueInv s) (samples : List (K × K)) (droppedSamples : UInt64) :
    QueueInv (rxCallback s samples droppedSamples) := by
  have heffect := rxPush_effect hinv.wellFormed (received s samples) droppedSamples
  have hunprocessed := unprocessed_callback hinv samples droppedSamples
  constructor
  · rw [rxCallback]
    generalize rxPush s.queue (received s samples) droppedSamples = result at heffect
    cases heffect with
    | refused => exact hinv.wellFormed
    | overrun hsamples hwf => exact hwf
    | accepted hsamples hwf => exact hwf
  · intro index slot hslot
    obtain ⟨hfilled, rfl, rfl⟩ := hinv.peeked index slot hslot
    rw [rxCallback]
    generalize rxPush s.queue (received s samples) droppedSamples = result at heffect
    cases heffect with
    | refused => exact ⟨hfilled, rfl, rfl⟩
    | @overrun pushed hsamples hwf hring hdevice hqueue hstopping =>
        have hcount : pushed.count = s.queue.count := congrArg RingBuffer.count hring
        have htail : pushed.tail = s.queue.tail := congrArg RingBuffer.head hring
        have hslots : pushed.slots = s.queue.slots := congrArg RingBuffer.slots hring
        dsimp only
        rw [hcount, htail, hslots]
        exact ⟨hfilled, rfl, rfl⟩
    | @accepted pushed hsamples hwf hcontents hpending htail hcount hstopping =>
        have hfilled' : pushed.count ≠ 0 := by
          rw [hcount]
          exact Nat.succ_ne_zero _
        exact ⟨hfilled', htail.symm,
          (push_keeps_tail hinv.wellFormed hwf hcontents hfilled hfilled').symm⟩
  · rw [hunprocessed, rxCallback]
    dsimp only
    split
    · rw [← List.append_assoc, List.map_append, ← hinv.order]
      rfl
    · exact hinv.order
  · rw [hunprocessed, rxCallback]
    split
    · intro block hblock
      rw [← List.append_assoc] at hblock
      rcases List.mem_append.mp hblock with hold | hnew
      · exact hinv.counts block hold
      · rw [List.mem_singleton.mp hnew]
        rfl
    · exact hinv.counts

theorem unprocessed_dsp {dsp : DspPoint K}
    (hprocessed : dsp.slotProcessed = s.dsp.slotProcessed) :
    unprocessed {s with dsp := dsp} = unprocessed s := by
  rw [unprocessed, unprocessed, hprocessed]

/-- The DSP thread moves on without touching the blocks. -/
theorem dspMoves_queueInv (hinv : QueueInv s) {dsp : DspPoint K}
    (hslot : ∀ index slot, dsp.slot = some (index, slot) →
      s.queue.count ≠ 0 ∧ index = s.queue.tail ∧ slot = s.queue.slots s.queue.tail)
    (hprocessed : dsp.slotProcessed = s.dsp.slotProcessed) : QueueInv {s with dsp := dsp} := by
  have hunprocessed := unprocessed_dsp hprocessed
  constructor
  · exact hinv.wellFormed
  · exact hslot
  · rw [hunprocessed]
    exact hinv.order
  · rw [hunprocessed]
    exact hinv.counts

/-- What the DSP thread reads is the peeked slot. -/
theorem QueueInv.block_eq (hinv : QueueInv s) {index : Nat} {slot : Block K}
    (hslot : s.dsp.slot = some (index, slot)) :
    ({slot with samples := (s.queue.slots index).samples} : Block K) = slot := by
  obtain ⟨-, rfl, rfl⟩ := hinv.peeked index slot hslot
  rfl

theorem QueueInv.contents_eq (hinv : QueueInv s) {index : Nat} {slot : Block K}
    (hslot : s.dsp.slot = some (index, slot)) :
    s.queue.contents = slot :: s.queue.contents.tail := by
  obtain ⟨hcount, -, rfl⟩ := hinv.peeked index slot hslot
  exact contents_of_count hinv.wellFormed hcount

theorem unprocessed_peeked (hinv : QueueInv s) {index : Nat} {slot : Block K}
    (hdsp : s.dsp = .peeked index slot) : unprocessed s = slot :: s.queue.contents.tail := by
  have hslot : s.dsp.slot = some (index, slot) := hdsp ▸ rfl
  rw [← hinv.contents_eq hslot, unprocessed, hdsp]
  rfl

theorem unprocessed_releasing (hinv : QueueInv s) {index : Nat} {slot : Block K}
    (hdsp : s.dsp = .releasing index slot) :
    unprocessed s = (sampleQueueRelease s.queue).2.contents := by
  have hslot : s.dsp.slot = some (index, slot) := hdsp ▸ rfl
  rw [(sampleQueueRelease_effect hinv.wellFormed (hinv.peeked index slot hslot).1).2, unprocessed,
    hdsp]
  rfl

/-- Processing moves the peeked block from those that wait to those that have been handled; the
order of all blocks stays that of their pushes. -/
theorem dspProcesses_queueInv (hinv : QueueInv s) {index : Nat} {slot : Block K}
    (hdsp : s.dsp = .peeked index slot) (capture : Capture K) (frameComplete : Bool) :
    QueueInv {s with
      capture := capture
      handled := s.handled ++ [{slot with samples := (s.queue.slots index).samples}]
      dsp := .processed index slot frameComplete} := by
  have hslot : s.dsp.slot = some (index, slot) := hdsp ▸ rfl
  have hall : s.handled ++ [slot] ++ s.queue.contents.tail = s.handled ++ unprocessed s := by
    rw [unprocessed_peeked hinv hdsp, List.append_assoc, List.singleton_append]
  rw [hinv.block_eq hslot]
  constructor
  · exact hinv.wellFormed
  · intro other block hother
    exact hinv.peeked other block (hslot.trans hother)
  · exact hinv.order.trans (congrArg _ hall.symm)
  · intro block hblock
    exact hinv.counts block (hall ▸ hblock)

/-- A release takes the processed block off the queue, and the blocks that wait are the ones
left in it. -/
theorem dspReleases_queueInv (hinv : QueueInv s) {index : Nat} {slot : Block K}
    (hdsp : s.dsp = .releasing index slot) :
    QueueInv {s with queue := (sampleQueueRelease s.queue).2, dsp := .idle} := by
  have hslot : s.dsp.slot = some (index, slot) := hdsp ▸ rfl
  have hwf := (sampleQueueRelease_effect hinv.wellFormed (hinv.peeked index slot hslot).1).1
  have hbefore := unprocessed_releasing hinv hdsp
  constructor
  · exact hwf
  · exact nofun
  · exact hinv.order.trans (congrArg (fun rest => (s.handled ++ rest).map (·.samples)) hbefore)
  · intro block hblock
    apply hinv.counts block
    rw [hbefore]
    exact hblock

variable [Field K] {mode : ReceiverMode} {libm : Libm K}

theorem unprocessed_init (mode : ReceiverMode) (s : ReceiverRun K) (frameStartUnix : Int)
    (frameDate frameUttime : CString) :
    unprocessed (initSampleStorage mode s frameStartUnix frameDate frameUttime) = [] := by
  have hcontents : (sampleQueueReset s.queue).contents = [] := rfl
  rw [unprocessed, initSampleStorage, hcontents, List.tail_nil, ite_self]

theorem inits_queueInv (hinv : QueueInv s) (hdsp : s.dsp.slot = none) (frameStartUnix : Int)
    (frameDate frameUttime : CString) :
    QueueInv (initSampleStorage mode s frameStartUnix frameDate frameUttime) := by
  have hempty := unprocessed_init mode s frameStartUnix frameDate frameUttime
  constructor
  · exact sampleQueueReset_wellFormed hinv.wellFormed
  · intro index slot hslot
    cases hdsp.symm.trans hslot
  · rw [hempty]
    rfl
  · rw [hempty]
    exact nofun

/-- Every step of every thread keeps the invariant of the queue. Main resets the queue only
when the DSP thread holds no slot. -/
theorem queueInv_step (hinv : QueueInv s) {a : ReceiverAction K}
    (hstep : receiverStep mode libm s a = some t) : QueueInv t := by
  cases receiverStep_effect hstep with
  | callback hmain => exact callback_queueInv hinv _ _
  | dspWakes hdsp =>
      exact dspMoves_queueInv hinv nofun (hdsp ▸ rfl)
  | dspExits hdsp =>
      exact dspMoves_queueInv hinv nofun (hdsp ▸ rfl)
  | dspPeeks hdsp hcount =>
      refine dspMoves_queueInv hinv ?_ (hdsp ▸ rfl)
      intro index slot hslot
      obtain ⟨rfl, rfl⟩ := Prod.mk.inj (Option.some.inj hslot)
      exact ⟨hcount, rfl, rfl⟩
  | dspFindsNothing hdsp =>
      exact dspMoves_queueInv hinv nofun (hdsp ▸ rfl)
  | dspProcesses hdsp => exact dspProcesses_queueInv hinv hdsp _ _
  | @dspSignals index slot frameComplete hdsp =>
      have hslot : s.dsp.slot = some (index, slot) := hdsp ▸ rfl
      have hmoved : QueueInv {s with dsp := .releasing index slot} := by
        refine dspMoves_queueInv hinv ?_ (hdsp ▸ rfl)
        intro other block hother
        exact hinv.peeked other block (hslot.trans hother)
      exact ⟨hmoved.wellFormed, hmoved.peeked, hmoved.order, hmoved.counts⟩
  | dspReleases hdsp => exact dspReleases_queueInv hinv hdsp
  | inits hmain hdsp => exact inits_queueInv hinv hdsp _ _ _
  | stops hmain =>
      exact ⟨⟨hinv.wellFormed.ring, hinv.wellFormed.head⟩, hinv.peeked, hinv.order, hinv.counts⟩
  | tunes | seesCapture | seesEnd | leaves | decoderExits | decoderWakes | decoderCopies
  | decoderFinishes | decoderGivesUp | exits =>
      exact ⟨hinv.wellFormed, hinv.peeked, hinv.order, hinv.counts⟩

theorem queueInv_reachable {rate blockCapacity dialfreq : Nat} {start : ReceiverRun K}
    (hstart : receiverRunStart mode libm rate blockCapacity dialfreq = some start)
    {allowed : ReceiverRun K → ReceiverAction K → Prop} :
    ∀ s, Reachable (receiverStep mode libm) allowed start s → QueueInv s := by
  obtain ⟨filters, queue, -, hqueue, rfl⟩ := receiverRunStart_eq hstart
  obtain ⟨hwf, hcontents, -⟩ := sampleQueueInit_wellFormed hqueue
  refine Reachable.invariant ⟨hwf, nofun, ?_, ?_⟩
    fun _ _ _ _ hinv _ hstep => queueInv_step hinv hstep
  · exact (congrArg (fun rest => (([] : List (Block K)) ++ rest).map (·.samples)) hcontents).symm
  · intro block hblock
    have hnone : block ∈ queue.contents := hblock
    rw [hcontents] at hnone
    cases hnone

/-- What holds of the queue in every state, and of a step of the callback, the DSP thread
or main from it. -/
structure QueueSafe (mode : ReceiverMode) (libm : Libm K) (s : ReceiverRun K) : Prop where
  count_le : s.queue.count ≤ s.queue.slotCount
  head_eq : s.queue.head = (s.queue.tail + s.queue.count) % s.queue.slotCount
  /-- From its peek to its release a slot holds what was peeked. -/
  slot_kept : ∀ index slot, s.dsp.slot = some (index, slot) → s.queue.slots index = slot
  /-- A push writes at `head`, and only into a queue that is not full. -/
  push_elsewhere : ∀ index slot, s.dsp.slot = some (index, slot) →
    s.queue.count ≠ s.queue.slotCount → s.queue.head ≠ index
  no_reset : s.dsp.slot.isSome = true → ∀ frameStartUnix frameDate frameUttime,
    receiverStep mode libm s (.initSampleStorage frameStartUnix frameDate frameUttime) = none
  release : ∀ index slot t, s.dsp = .releasing index slot →
    receiverStep mode libm s .dsp = some t → s.queue.contents = slot :: t.queue.contents
  /-- The blocks accepted since the last reset are those processed since then, in this
  order, and the blocks that wait. -/
  order : s.accepted = (s.handled ++ unprocessed s).map (·.samples)
  counts : ∀ block ∈ s.handled, block.sampleCount = block.samples.length

/-- What is claimed of the queue follows from the invariant of the state: a push writes to
another slot than the one held, and no reset can come between a peek and its release. -/
theorem QueueInv.safe (hinv : QueueInv s) : QueueSafe mode libm s where
  count_le := hinv.wellFormed.ring.2
  head_eq := hinv.wellFormed.head
  slot_kept index slot hslot := by
    obtain ⟨-, rfl, rfl⟩ := hinv.peeked index slot hslot
    rfl
  push_elsewhere index slot hslot hroom hhead := by
    obtain ⟨hcount, rfl, -⟩ := hinv.peeked index slot hslot
    have hlt : s.queue.count < s.queue.slotCount :=
      Nat.lt_of_le_of_ne hinv.wellFormed.ring.2 hroom
    have htail := RingBuffer.slotAt_zero hinv.wellFormed.ring
    have hsame : s.queue.ring.slotAt s.queue.count = s.queue.ring.slotAt 0 := by
      rw [htail]
      exact hinv.wellFormed.head.symm.trans hhead
    exact hcount (RingBuffer.slotAt_inj hinv.wellFormed.ring hlt (Nat.zero_lt_of_lt hlt) hsame)
  no_reset hslot frameStartUnix frameDate frameUttime := by
    apply if_neg
    rintro ⟨-, hnone⟩
    rw [Option.isNone_iff_eq_none.mp hnone] at hslot
    cases hslot
  release index slot t hdsp hstep := by
    have hslot : s.dsp.slot = some (index, slot) := hdsp ▸ rfl
    have hcount := (hinv.peeked index slot hslot).1
    rw [receiverStep, wsprDsp, hdsp] at hstep
    obtain rfl := Option.some.inj hstep
    dsimp only
    rw [(sampleQueueRelease_effect hinv.wellFormed hcount).2]
    exact hinv.contents_eq hslot
  order := hinv.order
  counts block hblock := hinv.counts block (List.mem_append_left _ hblock)

/-- The queue is safe in every interleaving of the callback, the DSP thread and main. A slot
that is being read stays in front of the waiting ones, and main resets the queue under
`dsp_mutex`, which the DSP thread has from the peek to the release. -/
theorem queue_safe_in_every_run {rate blockCapacity dialfreq : Nat} {start : ReceiverRun K}
    (hstart : receiverRunStart mode libm rate blockCapacity dialfreq = some start)
    {s : ReceiverRun K} (hs : Reachable (receiverStep mode libm) anyStep start s) :
    QueueSafe mode libm s :=
  (queueInv_reachable hstart s hs).safe

end Steps

/-- The mathematical functions do not matter for WSPR. -/
def plainLibm : Libm Rat where
  stepCos _ := 1
  stepSin _ := 0
  designFilter _ := fun _ => 0
  normalized cos sin := (cos, sin)

theorem exampleReceiver_starts :
    (receiverRunStart .wspr plainLibm 750 64 14095600).isSome = true := rfl

/-- WSPR at two inputs for each output. -/
def exampleReceiver : ReceiverRun Rat :=
  (receiverRunStart .wspr plainLibm 750 64 14095600).get exampleReceiver_starts

/-- A frame begins, and a second block arrives while the first one is peeked. -/
def peekedActions : List (ReceiverAction Rat) :=
  [.initSampleStorage 1200 (bytes "150426") (bytes "0918"), .rxCallback [(1, 0)] 0, .dsp, .dsp,
    .rxCallback [(2, 0)] 3]

theorem peekedActions_run :
    (execute (receiverStep .wspr plainLibm) exampleReceiver peekedActions).isSome = true := by
  decide +kernel

/-- The DSP thread holds a block while another one is pushed. -/
theorem peeked_queue_safe :
    QueueSafe .wspr plainLibm
      ((execute (receiverStep .wspr plainLibm) exampleReceiver peekedActions).get
        peekedActions_run) :=
  queue_safe_in_every_run (Option.some_get exampleReceiver_starts).symm
    (.get_execute peekedActions (allAllowed_anyStep _ _ _) peekedActions_run)

end AirspyhfWsprd.Receiver
