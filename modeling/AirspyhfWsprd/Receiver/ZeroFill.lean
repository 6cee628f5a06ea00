import AirspyhfWsprd.Receiver.SnapshotCoherence

/-!
The zeros for what was lost before a block. `process_sample_block` adds the two drop counters
and the samples as `uint64_t`. Where the sums do not wrap around, or the frame ends before it
matters, it feeds a zero for every lost sample that the frame has room for.
-/

namespace AirspyhfWsprd.Receiver

open Library

variable {K : Type*}

/-- The samples lost before a block, added without wrap-around. -/
def lostSamples (block : Block K) : Nat :=
  block.deviceDroppedSamples.toNat + block.queueDroppedSamples.toNat

/-- The inputs that the frame still takes: all its samples take, but for those fed. -/
def Capture.remainingInputs (mode : ReceiverMode) (capture : Capture K) : Nat :=
  if capture.captureFlag then
    captureSampleTarget mode * capture.filters.factor mode - capture.fed.length
  else 0

/-- The zeros come first, as many as were lost or as the frame takes, and a sample is fed only
behind all of them. -/
structure ZeroFilled (lost remaining : Nat) (fed : List (Option (ReceivedSample K))) : Prop where
  zeros : (fed.takeWhile (·.isNone)).length = min lost remaining
  samples : ∀ index sample, fed[index]? = some (some sample) → lost ≤ index

/-- The sums fit into 64 bits, or what they wrap around to is still enough for the frame. -/
def SumsSuffice (lost sampleCount remaining : Nat) : Prop :=
  lost + sampleCount < 2 ^ 64 ∨
    (remaining ≤ lost % 2 ^ 64 ∧ remaining ≤ (lost + sampleCount) % 2 ^ 64)

/-- Zeros as long as the index is below both sums, then the samples up to the second one. -/
theorem blockInputs_eq_zeros_samples {block : Block K}
    (hcount : block.sampleCount = block.samples.length) :
    blockInputs block =
      List.replicate (min (lostSamples block % 2 ^ 64)
        ((lostSamples block + block.sampleCount) % 2 ^ 64)) none ++
      (block.samples.take ((lostSamples block + block.sampleCount) % 2 ^ 64 -
        lostSamples block % 2 ^ 64)).map some := by
  have hmissing : (block.deviceDroppedSamples + block.queueDroppedSamples).toNat =
      lostSamples block % 2 ^ 64 := UInt64.toNat_add _ _
  have hinputs : (block.deviceDroppedSamples + block.queueDroppedSamples +
      UInt64.ofNat block.sampleCount).toNat =
        (lostSamples block + block.sampleCount) % 2 ^ 64 := by
    rw [UInt64.toNat_add, hmissing, UInt64.toNat_ofNat', Nat.add_mod_mod, Nat.mod_add_mod]
  have hle : (lostSamples block + block.sampleCount) % 2 ^ 64 - lostSamples block % 2 ^ 64 ≤
      block.samples.length := by omega
  rw [blockInputs, hinputs, hmissing]
  generalize lostSamples block % 2 ^ 64 = missing at hle ⊢
  generalize (lostSamples block + block.sampleCount) % 2 ^ 64 = count at hle ⊢
  apply List.ext_getElem?
  intro index
  rw [List.getElem?_map]
  rcases Nat.lt_or_ge index count with hindex | hindex
  · rw [List.getElem?_range hindex, Option.map_some]
    rcases Nat.lt_or_ge index missing with hzero | hsample
    · rw [if_neg hzero.not_ge, List.getElem?_append_left (by simp [hzero, hindex]),
        List.getElem?_replicate, if_pos (Nat.lt_min.mpr ⟨hzero, hindex⟩)]
    · have hmin : min missing count = missing := Nat.min_eq_left (hsample.trans hindex.le)
      have hroom : index - missing < count - missing := by omega
      rw [if_pos hsample, hmin, List.getElem?_append_right (by simp [hsample]),
        List.length_replicate, List.getElem?_map, List.getElem?_take_of_lt hroom,
        List.getElem?_eq_getElem (hroom.trans_le hle), Option.map_some]
  · rw [List.getElem?_eq_none (by simp [hindex]), Option.map_none, eq_comm,
      List.getElem?_eq_none]
    rw [List.length_append, List.length_replicate, List.length_map, List.length_take]
    omega

section Frame

variable [Field K] {mode : ReceiverMode} {libm : Libm K} {start : Filters K} {capture : Capture K}

/-- The frame takes the inputs of a block until it has all that its samples take. -/
theorem processSampleBlock_fed (hpos : 0 < start.factor mode) (hphase : start.phase mode = 0)
    (hinv : CaptureInv mode libm start capture) (block : Block K) :
    (processSampleBlock mode libm capture block).2.fed.drop capture.fed.length =
      (blockInputs block).take (capture.remainingInputs mode) := by
  rcases hflag : capture.captureFlag
  · rw [processSampleBlock_ignored hflag, Capture.remainingInputs, hflag, List.drop_length,
      if_neg Bool.false_ne_true, List.take_zero]
  have hfactor : capture.filters.factor mode = start.factor mode := by
    rw [hinv.filters]
    exact (Filters.run_counts libm hpos hphase capture.fed).1
  have heffect := processSampleBlock_effect hpos hphase hinv block
  have hblocks := heffect.blocks
  rw [if_pos hflag] at hblocks
  have hall : (capture.blocks ++ [block]).flatMap blockInputs =
      capture.fed ++ blockInputs block := by
    rw [List.flatMap_append, List.flatMap_singleton, ← (hinv.running hflag).2]
  have hfed := heffect.inv.fed
  have hrunning := heffect.inv.running
  have hsamples := heffect.inv.samples
  have hfull := heffect.inv.full
  rw [hblocks, hall] at hfed hrunning
  generalize (processSampleBlock mode libm capture block).2 = next at hfed hrunning hsamples hfull
  have htaken : next.fed = (capture.fed ++ blockInputs block).take
      (captureSampleTarget mode * start.factor mode) := by
    rcases hended : next.captureFlag
    · rw [← (hfull hended).2]
      exact List.prefix_iff_eq_take.mp hfed
    · obtain ⟨hshort, hmore⟩ := hrunning hended
      rw [Capture.iqIndex, hsamples, (Filters.run_counts libm hpos hphase _).2.2,
        Nat.div_lt_iff_lt_mul hpos, hmore] at hshort
      rw [hmore, List.take_of_length_le hshort.le]
  rw [htaken, List.drop_take, List.drop_left, Capture.remainingInputs, if_pos hflag, hfactor]

end Frame

section Wrapping

variable {lost sampleCount remaining : Nat}

/-- The frame takes as many zeros as were lost exactly when the sums suffice for it. -/
theorem zeros_eq_iff (hsamples : sampleCount < 2 ^ 64) :
    min remaining (min (lost % 2 ^ 64) ((lost + sampleCount) % 2 ^ 64)) = min lost remaining ↔
      SumsSuffice lost sampleCount remaining := by
  rw [SumsSuffice]
  constructor
  · intro hzeros
    by_contra hwraps
    omega
  · rintro (hfits | ⟨hmissing, hcount⟩)
    · omega
    · omega

theorem takeWhile_zeros {α : Type*} (zeros : Nat) (samples : List α) :
    (List.replicate zeros none ++ samples.map some).takeWhile (·.isNone) =
      List.replicate zeros none := by
  rw [List.takeWhile_append_of_pos (by simp)]
  cases samples <;> simp

/-- Zeros and samples, cut off where the frame ends. -/
theorem zeroFilled_take_iff {zeros : Nat} {samples : List (ReceivedSample K)} :
    ZeroFilled lost remaining ((List.replicate zeros none ++ samples.map some).take remaining) ↔
      min remaining zeros = min lost remaining := by
  have htake : (List.replicate zeros none ++ samples.map some).take remaining =
      List.replicate (min remaining zeros) none ++ (samples.take (remaining - zeros)).map some := by
    rw [List.take_append, List.take_replicate, List.length_replicate, List.map_take]
  have hlength : ((List.replicate zeros none ++ samples.map some).take remaining).length ≤
      remaining := List.length_take_le _ _
  have hzeros : (((List.replicate zeros none ++ samples.map some).take remaining).takeWhile
      Option.isNone).length = min remaining zeros := by
    rw [htake, takeWhile_zeros, List.length_replicate]
  constructor
  · intro hfilled
    rw [← hfilled.zeros, hzeros]
  · intro heq
    refine ⟨hzeros.trans heq, fun index sample hsample => ?_⟩
    have hindex := (List.getElem?_eq_some_iff.mp hsample).1
    have hbehind : min remaining zeros ≤ index := by
      by_contra hbefore
      rw [not_le] at hbefore
      rw [htake, List.getElem?_append_left (by rwa [List.length_replicate]),
        List.getElem?_replicate, if_pos hbefore] at hsample
      cases hsample
    omega

end Wrapping

section Runs

variable [Field K] {mode : ReceiverMode} {libm : Libm K} {rate blockCapacity dialfreq : Nat}
  {receiver s t : ReceiverRun K}

/-- No block in the queue is longer than its slot. -/
structure BlocksBounded (blockCapacity : Nat) (s : ReceiverRun K) : Prop where
  capacity : s.queue.blockCapacity = blockCapacity
  accepted : ∀ samples ∈ s.accepted, samples.length ≤ blockCapacity

omit [Field K] in
/-- Whatever the counters hold: to compare whole queues would evaluate their sums. -/
theorem counted_capacity (queue : SampleQueue (ReceivedSample K))
    (pendingDeviceDrops pendingQueueDrops : UInt64) :
    ({queue with
      pendingDeviceDrops := pendingDeviceDrops
      pendingQueueDrops := pendingQueueDrops}).blockCapacity = queue.blockCapacity := rfl

omit [Field K] in
/-- A push changes nothing about the size of the queue's blocks, and takes no block that is
larger. -/
theorem rxPush_capacity (queue : SampleQueue (ReceivedSample K))
    (block : List (ReceivedSample K)) (droppedSamples : UInt64) :
    (rxPush queue block droppedSamples).2.blockCapacity = queue.blockCapacity ∧
      ((rxPush queue block droppedSamples).1 = true → block.length ≤ queue.blockCapacity) := by
  rw [rxPush, sampleQueuePush]
  split
  · exact ⟨rfl, Bool.false_ne_true.elim⟩
  split
  · exact ⟨rfl, Bool.false_ne_true.elim⟩
  split
  · exact ⟨counted_capacity queue _ _, Bool.false_ne_true.elim⟩
  · rename_i hfits
    generalize pushedSlot queue block droppedSamples = slot
    exact ⟨rfl, fun _ => Nat.le_of_not_lt fun hlong => hfits (Or.inl hlong)⟩

omit [Field K] in
/-- The blocks in the queue and those handled have no more samples than a slot has room for. -/
theorem callback_blocksBounded (hinv : BlocksBounded blockCapacity s) (samples : List (K × K))
    (droppedSamples : UInt64) :
    BlocksBounded blockCapacity (rxCallback s samples droppedSamples) := by
  obtain ⟨hcapacity, hlength⟩ := rxPush_capacity s.queue (received s samples) droppedSamples
  refine ⟨hcapacity.trans hinv.capacity, ?_⟩
  rw [rxCallback]
  dsimp only
  split
  · rename_i haccepted
    intro block hblock
    rcases List.mem_append.mp hblock with hold | hnew
    · exact hinv.accepted block hold
    · rw [List.mem_singleton.mp hnew, ← hinv.capacity]
      exact hlength haccepted
  · exact hinv.accepted

/-- No step makes a block larger, so the bound holds of all blocks of a run. -/
theorem blocksBounded_step (hinv : BlocksBounded blockCapacity s) {a : ReceiverAction K}
    (hstep : receiverStep mode libm s a = some t) : BlocksBounded blockCapacity t := by
  cases receiverStep_effect hstep with
  | callback hmain => exact callback_blocksBounded hinv _ _
  | inits => exact ⟨hinv.capacity, fun _ hsamples => absurd hsamples List.not_mem_nil⟩
  | dspReleases =>
      refine ⟨?_, hinv.accepted⟩
      rw [← hinv.capacity, sampleQueueRelease]
      split
      · rfl
      · rfl
  | dspWakes | dspExits | dspPeeks | dspFindsNothing | dspProcesses | dspSignals | tunes
  | seesCapture | seesEnd | leaves | stops | decoderExits | decoderWakes | decoderCopies
  | decoderFinishes | decoderGivesUp | exits => exact ⟨hinv.capacity, hinv.accepted⟩

theorem blocksBounded_reachable {allowed : ReceiverRun K → ReceiverAction K → Prop}
    (hstart : receiverRunStart mode libm rate blockCapacity dialfreq = some receiver) :
    ∀ s, Reachable (receiverStep mode libm) allowed receiver s →
      BlocksBounded blockCapacity s := by
  refine Reachable.invariant ?_ fun _ _ _ _ hinv _ hstep => blocksBounded_step hinv hstep
  obtain ⟨filters, queue, -, hqueue, rfl⟩ := receiverRunStart_eq hstart
  rw [sampleQueueInit] at hqueue
  split at hqueue
  · cases hqueue
  · obtain rfl := Option.some.inj hqueue
    exact ⟨rfl, fun _ hsamples => absurd hsamples List.not_mem_nil⟩

theorem dsp_capture {index : Nat} {slot : Block K} (hdsp : s.dsp = .peeked index slot)
    (hstep : receiverStep mode libm s .dsp = some t) :
    t.capture = (processSampleBlock mode libm s.capture
      {slot with samples := (s.queue.slots index).samples}).2 := by
  cases receiverStep_effect hstep with
  | dspProcesses hpeeked =>
      obtain ⟨rfl, rfl⟩ := DspPoint.peeked.inj (hdsp.symm.trans hpeeked)
      rfl
  | dspWakes hother | dspExits hother | dspPeeks hother | dspFindsNothing hother
  | dspSignals hother | dspReleases hother => cases hdsp.symm.trans hother

/-- In every run, a block that is processed has its zeros in front of it exactly when the sums
of `process_sample_block` suffice for the frame. What is said is of the inputs that the step
adds to those the filters were fed. -/
theorem zero_filled_iff_sums_suffice
    (hstart : receiverRunStart mode libm rate blockCapacity dialfreq = some receiver)
    (hcapacity : blockCapacity < 2 ^ 64)
    (hs : Reachable (receiverStep mode libm) anyStep receiver s) {index : Nat} {slot : Block K}
    (hdsp : s.dsp = .peeked index slot) (hstep : receiverStep mode libm s .dsp = some t) :
    ZeroFilled (lostSamples slot) (s.capture.remainingInputs mode)
        (t.capture.fed.drop s.capture.fed.length) ↔
      SumsSuffice (lostSamples slot) slot.sampleCount (s.capture.remainingInputs mode) := by
  have hqueue := queueInv_reachable hstart s hs
  have hframe := frameInv_reachable hstart s hs
  have hbounded := blocksBounded_reachable hstart s hs
  obtain ⟨hpos, hphase⟩ := resetFilters_starts hstart
  have hslot : s.dsp.slot = some (index, slot) := hdsp ▸ rfl
  have hwaits : slot ∈ s.handled ++ unprocessed s := by
    rw [unprocessed_peeked hqueue hdsp]
    exact List.mem_append_right _ List.mem_cons_self
  have hcount := hqueue.counts slot hwaits
  have hlength : slot.samples.length ≤ blockCapacity := by
    apply hbounded.accepted
    rw [hqueue.order]
    exact List.mem_map_of_mem hwaits
  have hsamples : slot.sampleCount < 2 ^ 64 := by omega
  have hfed : t.capture.fed.drop s.capture.fed.length =
      (blockInputs slot).take (s.capture.remainingInputs mode) := by
    rw [dsp_capture hdsp hstep, hqueue.block_eq hslot]
    rcases Decidable.em (s.calls = []) with hnone | hcalls
    · have hflag := (hframe.idle hnone).1
      rw [processSampleBlock_ignored hflag, Capture.remainingInputs, hflag, List.drop_length,
        if_neg Bool.false_ne_true, List.take_zero]
    · exact processSampleBlock_fed hpos hphase (hframe.capture hcalls) slot
  rw [hfed, blockInputs_eq_zeros_samples hcount, zeroFilled_take_iff, zeros_eq_iff hsamples]

end Runs

/-- A block behind losses of the device, peeked. -/
def peekedLossActions (droppedSamples : UInt64) : List (ReceiverAction Rat) :=
  [.initSampleStorage 1200 (bytes "150426") (bytes "0918"), .rxCallback [(1, 0)] droppedSamples,
    .dsp, .dsp]

theorem fiveLosses_run :
    (execute (receiverStep .wspr plainLibm) exampleReceiver
      (peekedLossActions 5)).isSome = true := by
  decide +kernel

/-- The five zeros in front of the first block of a frame. -/
theorem fiveLosses_filled :
    ∃ s t : ReceiverRun Rat, ∃ slot, Reachable (receiverStep .wspr plainLibm) anyStep
      exampleReceiver s ∧ s.dsp = .peeked 0 slot ∧ lostSamples slot = 5 ∧
      receiverStep .wspr plainLibm s .dsp = some t ∧
      ZeroFilled (lostSamples slot) (s.capture.remainingInputs .wspr)
        (t.capture.fed.drop s.capture.fed.length) := by
  refine ⟨_, _, _, .get_execute (peekedLossActions 5) (allAllowed_anyStep _ _ _) fiveLosses_run,
    rfl, rfl, rfl, ?_⟩
  refine (zero_filled_iff_sums_suffice (Option.some_get exampleReceiver_starts).symm (by decide)
    (.get_execute (peekedLossActions 5) (allAllowed_anyStep _ _ _) fiveLosses_run) rfl rfl).mpr ?_
  exact Or.inl (by decide)

theorem saturatedLosses_run :
    (execute (receiverStep .wspr plainLibm) exampleReceiver
      (peekedLossActions uint64Max)).isSome = true := by
  decide +kernel

/-- The losses fill 64 bits: with the sample the sum wraps around to 0, and the block is not
fed at all. -/
theorem saturatedLosses_not_filled :
    ¬ ∀ s t : ReceiverRun Rat, ∀ index slot, Reachable (receiverStep .wspr plainLibm) anyStep
      exampleReceiver s → s.dsp = .peeked index slot →
      receiverStep .wspr plainLibm s .dsp = some t →
      ZeroFilled (lostSamples slot) (s.capture.remainingInputs .wspr)
        (t.capture.fed.drop s.capture.fed.length) := by
  intro h
  have hfilled := h _ _ _ _
    (.get_execute (peekedLossActions uint64Max) (allAllowed_anyStep _ _ _) saturatedLosses_run)
    rfl rfl
  have hzeros := hfilled.zeros
  revert hzeros
  decide +kernel

end AirspyhfWsprd.Receiver
