import AirspyhfWsprd.Receiver.SnapshotCoherence

/-!
Time in a frame. Where `process_sample_block` adds up the losses before a block and its
samples without wrapping around, the inputs of a frame are the time since
`initSampleStorage`: the samples, and zeros for what was lost.
-/

namespace AirspyhfWsprd.Receiver

open Library

variable {K : Type*}

/-- The time that a block stands for: the losses before it, then its samples. -/
def blockTime (block : Block K) : List (Option (ReceivedSample K)) :=
  List.replicate (block.deviceDroppedSamples.toNat + block.queueDroppedSamples.toNat) none ++
    block.samples.map some

/-- `input_count` does not wrap around. -/
def BlockFits (block : Block K) : Prop :=
  block.deviceDroppedSamples.toNat + block.queueDroppedSamples.toNat + block.sampleCount < 2 ^ 64

/-- The steps that keep time: losses are added up below 2^64, a transfer without samples
has no losses, and the `input_count` of a block taken into the frame does not wrap around. -/
def SampleTimeKept (s : ReceiverRun K) : ReceiverAction K → Prop
  | .rxCallback samples droppedSamples =>
      (samples.length = 0 → droppedSamples = 0) ∧
        s.queue.pendingDeviceDrops.toNat + droppedSamples.toNat < 2 ^ 64 ∧
          s.queue.pendingQueueDrops.toNat + samples.length < 2 ^ 64
  | .dsp =>
      match s.dsp with
      | .peeked _ slot => s.capture.captureFlag = true → BlockFits slot
      | _ => True
  | _ => True

instance : DecidablePred (BlockFits (K := K)) := fun _ => Nat.decLt _ _

instance (flag : Bool) : (point : DspPoint K) →
    Decidable (match point with | .peeked _ slot => flag = true → BlockFits slot | _ => True)
  | .peeked _ slot => inferInstanceAs (Decidable (_ = true → BlockFits slot))
  | .idle | .awake | .processed .. | .releasing .. | .exited => isTrue trivial

instance (s : ReceiverRun K) : (a : ReceiverAction K) → Decidable (SampleTimeKept s a)
  | .rxCallback .. => inferInstanceAs (Decidable ((_ = 0 → _ = 0) ∧ _ < _ ∧ _ < _))
  | .dsp => inferInstanceAs (Decidable (match s.dsp with | .peeked _ _ => _ | _ => True))
  | .tune .. | .initSampleStorage .. | .pollCapture | .leaveLoop | .stopQueue | .decoder
  | .decoderGivesUp | .exit => isTrue trivial

section Definitions

variable [Field K] (mode : ReceiverMode) (libm : Libm K) (start : Filters K)

/-- The inputs of the frame are the beginning of the time since `initSampleStorage`, and the
frame is complete after exactly as many of them as its samples take. -/
structure SampleTimeContinuous (s : ReceiverRun K) : Prop where
  fed : s.capture.fed <+: s.timeline
  samples : s.capture.samples = start.outputs mode libm s.capture.fed
  running : s.capture.captureFlag = true →
    s.capture.fed.length < captureSampleTarget mode * start.factor mode
  full : s.capture.captureFlag = false → s.capture.samples.length = captureSampleTarget mode ∧
    s.capture.fed.length = captureSampleTarget mode * start.factor mode

end Definitions

/-- The blocks and the losses that no block carries yet make up the time. -/
structure TimeInv (s : ReceiverRun K) : Prop where
  running : s.queue.stopping = true → s.main = .stopped
  timeline : s.timeline = (s.handled ++ unprocessed s).flatMap blockTime ++
    List.replicate (s.queue.pendingDeviceDrops.toNat + s.queue.pendingQueueDrops.toNat) none
  fits : ∀ block ∈ s.capture.blocks, BlockFits block

theorem saturatingAdd_toNat {left right : UInt64} (h : left.toNat + right.toNat < 2 ^ 64) :
    (saturatingAdd left right).toNat = left.toNat + right.toNat := by
  have hmax : uint64Max.toNat = 2 ^ 64 - 1 := rfl
  have hleft : left.toNat ≤ uint64Max.toNat := by omega
  have hroom : ¬ uint64Max - left < right := by
    rw [UInt64.lt_iff_toNat_lt, UInt64.toNat_sub_of_le _ _ (UInt64.le_iff_toNat_le.mpr hleft)]
    omega
  rw [saturatingAdd, if_neg hroom, UInt64.toNat_add, Nat.mod_eq_of_lt h]

/-- A block whose count does not wrap around is fed as the time it stands for. -/
theorem blockInputs_eq {block : Block K} (hfits : BlockFits block)
    (hcount : block.sampleCount = block.samples.length) : blockInputs block = blockTime block := by
  rw [BlockFits, hcount] at hfits
  have hmissing : (block.deviceDroppedSamples + block.queueDroppedSamples).toNat =
      block.deviceDroppedSamples.toNat + block.queueDroppedSamples.toNat := by
    rw [UInt64.toNat_add, Nat.mod_eq_of_lt (by omega)]
  have hlength : (UInt64.ofNat block.samples.length).toNat = block.samples.length :=
    UInt64.toNat_ofNat_of_lt' (Nat.lt_of_le_of_lt (Nat.le_add_left _ _) hfits)
  have hinputs : (block.deviceDroppedSamples + block.queueDroppedSamples +
      UInt64.ofNat block.samples.length).toNat =
        (block.deviceDroppedSamples.toNat + block.queueDroppedSamples.toNat) +
          block.samples.length := by
    rw [UInt64.toNat_add, hmissing, hlength, Nat.mod_eq_of_lt hfits]
  rw [blockInputs, hcount, hinputs, hmissing, List.range_add, List.map_append, List.map_map,
    blockTime]
  congr 1
  · rw [List.eq_replicate_iff]
    refine ⟨by rw [List.length_map, List.length_range], fun input hinput => ?_⟩
    obtain ⟨index, hindex, rfl⟩ := List.mem_map.mp hinput
    exact if_neg (Nat.not_le.mpr (List.mem_range.mp hindex))
  · apply List.ext_getElem?
    intro index
    rcases Nat.lt_or_ge index block.samples.length with hlt | hge
    · simp [hlt]
    · simp [hge]

section Steps

variable {s t : ReceiverRun K}

/-- A step that neither takes a block nor moves time. -/
theorem TimeInv.kept (hinv : TimeInv s) (hcapture : t.capture = s.capture)
    (hhandled : t.handled = s.handled) (htimeline : t.timeline = s.timeline)
    (hblocks : unprocessed t = unprocessed s)
    (hdevice : t.queue.pendingDeviceDrops = s.queue.pendingDeviceDrops)
    (hqueue : t.queue.pendingQueueDrops = s.queue.pendingQueueDrops)
    (hrunning : t.queue.stopping = true → t.main = .stopped) : TimeInv t := by
  constructor
  · exact hrunning
  · rw [htimeline, hhandled, hblocks, hdevice, hqueue]
    exact hinv.timeline
  · rw [hcapture]
    exact hinv.fits

/-- The block that a push makes stands for the losses that were pending and for the transfer
itself, as long as the sum of the device's losses does not reach 2^64. -/
theorem blockTime_pushedSlot (queue : SampleQueue (ReceivedSample K))
    (samples : List (ReceivedSample K)) {droppedSamples : UInt64}
    (hdevice : queue.pendingDeviceDrops.toNat + droppedSamples.toNat < 2 ^ 64) :
    blockTime (pushedSlot queue samples droppedSamples) =
      List.replicate (queue.pendingDeviceDrops.toNat + queue.pendingQueueDrops.toNat) none ++
        transferTime true samples droppedSamples := by
  have hdrops : (pushedSlot queue samples droppedSamples).deviceDroppedSamples.toNat =
      queue.pendingDeviceDrops.toNat + droppedSamples.toNat := saturatingAdd_toNat hdevice
  have hsum : queue.pendingDeviceDrops.toNat + droppedSamples.toNat +
      queue.pendingQueueDrops.toNat =
        queue.pendingDeviceDrops.toNat + queue.pendingQueueDrops.toNat + droppedSamples.toNat := by
    omega
  rw [blockTime, hdrops, pushedSlot, transferTime, hsum, ← List.replicate_append_replicate,
    List.append_assoc]
  rfl

/-- A transfer is counted in the block that takes it, or in the pending losses. -/
theorem callback_timeInv (hqueue : QueueInv s) (hinv : TimeInv s) {samples : List (K × K)}
    {droppedSamples : UInt64} (hmain : s.main ≠ .stopped)
    (hempty : samples.length = 0 → droppedSamples = 0)
    (hdevice : s.queue.pendingDeviceDrops.toNat + droppedSamples.toNat < 2 ^ 64)
    (hdrops : s.queue.pendingQueueDrops.toNat + samples.length < 2 ^ 64) :
    TimeInv (rxCallback s samples droppedSamples) := by
  have heffect := rxPush_effect hqueue.wellFormed (received s samples) droppedSamples
  have hunprocessed := unprocessed_callback hqueue samples droppedSamples
  have hlength : (received s samples).length = samples.length := List.length_map _
  refine ⟨?_, ?_, hinv.fits⟩
  · rw [rxCallback]
    generalize rxPush s.queue (received s samples) droppedSamples = result at heffect
    cases heffect with
    | refused => exact hinv.running
    | overrun hsamples hwf hring hpending hlost hstopping =>
        exact fun h => hinv.running (hstopping.symm.trans h)
    | accepted hsamples hwf hcontents hpending htail hcount hstopping =>
        exact fun h => hinv.running (hstopping.symm.trans h)
  · rw [hunprocessed, rxCallback, hinv.timeline]
    generalize rxPush s.queue (received s samples) droppedSamples = result at heffect
    cases heffect with
    | refused hrefused =>
        have hnone : samples = [] := by
          rcases hrefused with hnil | hstopping
          · exact List.map_eq_nil_iff.mp hnil
          · exact absurd (hinv.running hstopping) hmain
        rw [hempty (List.length_eq_zero_iff.mpr hnone), hnone]
        exact List.append_nil _
    | overrun hsamples hwf hring hpending hlost hstopping =>
        have hlost64 : (UInt64.ofNat (received s samples).length).toNat = samples.length := by
          rw [hlength]
          exact UInt64.toNat_ofNat_of_lt' (Nat.lt_of_le_of_lt (Nat.le_add_left _ _) hdrops)
        dsimp only
        rw [if_neg Bool.false_ne_true, hpending, hlost, saturatingAdd_toNat hdevice,
          saturatingAdd_toNat (hlost64 ▸ hdrops), hlost64, transferTime,
          if_neg Bool.false_ne_true, hlength, List.append_assoc, List.replicate_append_replicate,
          List.replicate_append_replicate]
        congr 2
        omega
    | accepted hsamples hwf hcontents hpending htail hcount hstopping =>
        have hall : (s.handled ++
            (unprocessed s ++ [pushedSlot s.queue (received s samples) droppedSamples])).flatMap
              blockTime = (s.handled ++ unprocessed s).flatMap blockTime ++
                (List.replicate (s.queue.pendingDeviceDrops.toNat +
                  s.queue.pendingQueueDrops.toNat) none ++
                    transferTime true (received s samples) droppedSamples) := by
          rw [← List.append_assoc, List.flatMap_append, List.flatMap_singleton,
            blockTime_pushedSlot _ _ hdevice]
        dsimp only
        rw [if_pos rfl, hpending.1, hpending.2, hall, List.append_assoc]
        exact (List.append_nil _).symm

theorem init_timeInv [Field K] (mode : ReceiverMode) (hinv : TimeInv s) (hmain : s.main ≠ .stopped)
    (frameStartUnix : Int) (frameDate frameUttime : CString) :
    TimeInv (initSampleStorage mode s frameStartUnix frameDate frameUttime) := by
  refine ⟨fun hstopping => absurd (hinv.running hstopping) hmain, ?_, nofun⟩
  rw [unprocessed_init]
  rfl

variable [Field K] {mode : ReceiverMode} {libm : Libm K} {start : Filters K}

/-- A block moves from the queue to the handled ones, which leaves the timeline as it is, and
its count does not wrap around when it is taken into a frame. -/
theorem processes_timeInv (hpos : 0 < start.factor mode) (hphase : start.phase mode = 0)
    (hqueue : QueueInv s) (hframe : FrameInv mode libm start s) (hinv : TimeInv s) {index : Nat}
    {slot : Block K} (hdsp : s.dsp = .peeked index slot)
    (hfits : s.capture.captureFlag = true → BlockFits slot) :
    TimeInv {s with
      capture := (processSampleBlock mode libm s.capture slot).2
      handled := s.handled ++ [slot]
      dsp := .processed index slot (processSampleBlock mode libm s.capture slot).1} := by
  have hall : s.handled ++ [slot] ++ s.queue.contents.tail = s.handled ++ unprocessed s := by
    rw [unprocessed_peeked hqueue hdsp, List.append_assoc, List.singleton_append]
  have htimeline := hinv.timeline
  rw [← hall] at htimeline
  rcases hflag : s.capture.captureFlag
  · rw [processSampleBlock_ignored hflag]
    exact ⟨hinv.running, htimeline, hinv.fits⟩
  · have heffect := hframe.block_effect hpos hphase hflag slot
    refine ⟨hinv.running, htimeline, ?_⟩
    dsimp only
    rw [heffect.blocks, if_pos hflag]
    intro block hblock
    rcases List.mem_append.mp hblock with hold | hnew
    · exact hinv.fits block hold
    · exact List.mem_singleton.mp hnew ▸ hfits hflag

omit [Field K] in
theorem release_pending (queue : SampleQueue (ReceivedSample K)) :
    (sampleQueueRelease queue).2.pendingDeviceDrops = queue.pendingDeviceDrops ∧
      (sampleQueueRelease queue).2.pendingQueueDrops = queue.pendingQueueDrops ∧
        (sampleQueueRelease queue).2.stopping = queue.stopping := by
  rw [sampleQueueRelease]
  split
  · exact ⟨rfl, rfl, rfl⟩
  · exact ⟨rfl, rfl, rfl⟩

/-- Each step that keeps time keeps the invariant: what has been handled, what waits and what
is pending make up the time since the frame began. -/
theorem timeInv_step (hpos : 0 < start.factor mode) (hphase : start.phase mode = 0)
    (hqueue : QueueInv s) (hframe : FrameInv mode libm start s) (hinv : TimeInv s)
    {a : ReceiverAction K} (hkept : SampleTimeKept s a)
    (hstep : receiverStep mode libm s a = some t) : TimeInv t := by
  cases receiverStep_effect hstep with
  | callback hmain => exact callback_timeInv hqueue hinv hmain hkept.1 hkept.2.1 hkept.2.2
  | dspWakes hdsp =>
      exact hinv.kept rfl rfl rfl (unprocessed_dsp (hdsp ▸ rfl)) rfl rfl hinv.running
  | dspExits hdsp =>
      exact hinv.kept rfl rfl rfl (unprocessed_dsp (hdsp ▸ rfl)) rfl rfl hinv.running
  | dspPeeks hdsp hcount =>
      exact hinv.kept rfl rfl rfl (unprocessed_dsp (hdsp ▸ rfl)) rfl rfl hinv.running
  | dspFindsNothing hdsp =>
      exact hinv.kept rfl rfl rfl (unprocessed_dsp (hdsp ▸ rfl)) rfl rfl hinv.running
  | @dspProcesses index slot hdsp =>
      have hslot : s.dsp.slot = some (index, slot) := hdsp ▸ rfl
      rw [hqueue.block_eq hslot]
      rw [SampleTimeKept, hdsp] at hkept
      exact processes_timeInv hpos hphase hqueue hframe hinv hdsp hkept
  | @dspSignals index slot frameComplete hdsp =>
      have hblocks : unprocessed {s with dsp := .releasing index slot} = unprocessed s :=
        unprocessed_dsp (hdsp ▸ rfl)
      exact hinv.kept rfl rfl rfl hblocks rfl rfl hinv.running
  | dspReleases hdsp =>
      obtain ⟨hdevice, hdrops, hstopping⟩ := release_pending s.queue
      exact hinv.kept rfl rfl rfl (unprocessed_releasing hqueue hdsp).symm hdevice hdrops
        fun h => hinv.running (hstopping.symm.trans h)
  | inits hmain hdsp => exact init_timeInv mode hinv (hmain ▸ nofun) _ _ _
  | stops hmain => exact hinv.kept rfl rfl rfl rfl rfl rfl fun _ => rfl
  | tunes hmain | seesCapture hmain => exact hinv.kept rfl rfl rfl rfl rfl rfl hinv.running
  | seesEnd hmain hflag =>
      exact hinv.kept rfl rfl rfl rfl rfl rfl fun h =>
        absurd (hmain.symm.trans (hinv.running h)) nofun
  | leaves hmain =>
      refine hinv.kept rfl rfl rfl rfl rfl rfl fun h => ?_
      have hstopped := hinv.running h
      rcases hmain with hmain | hmain
      · exact absurd (hmain.symm.trans hstopped) nofun
      · exact absurd (hmain.symm.trans hstopped) nofun
  | decoderExits | decoderWakes | decoderCopies | decoderFinishes | decoderGivesUp | exits =>
      exact hinv.kept rfl rfl rfl rfl rfl rfl hinv.running

variable {rate blockCapacity dialfreq : Nat} {receiver : ReceiverRun K}

/-- The invariant of time holds in every state that is reached by steps that keep time. -/
theorem timeInv_reachable
    (hstart : receiverRunStart mode libm rate blockCapacity dialfreq = some receiver) :
    ∀ s, Reachable (receiverStep mode libm) SampleTimeKept receiver s → TimeInv s := by
  obtain ⟨hpos, hphase⟩ := resetFilters_starts hstart
  refine Reachable.invariant ?_ fun s _ _ hs hinv hkept hstep =>
    timeInv_step hpos hphase (queueInv_reachable hstart s hs) (frameInv_reachable hstart s hs) hinv
      hkept hstep
  obtain ⟨filters, queue, -, hqueue, rfl⟩ := receiverRunStart_eq hstart
  obtain ⟨-, hcontents, hdevice, hdrops, hstopping⟩ := sampleQueueInit_wellFormed hqueue
  refine ⟨fun h => absurd (hstopping.symm.trans h) (by decide), ?_, nofun⟩
  rw [hdevice, hdrops, unprocessed]
  dsimp only
  rw [hcontents]
  rfl

/-- In every run whose steps keep time, the inputs of the frame are the beginning of the time
since it began, and it ends on time. Each transfer adds its losses and its samples to the time;
the invariant is that the blocks taken, the waiting ones and the pending losses make up all of
it. -/
theorem sample_time_continuous_when_kept
    (hstart : receiverRunStart mode libm rate blockCapacity dialfreq = some receiver)
    (hs : Reachable (receiverStep mode libm) SampleTimeKept receiver s) (hcalls : s.calls ≠ []) :
    SampleTimeContinuous mode libm (receiver.resetFilters mode) s := by
  have hinv := timeInv_reachable hstart s hs
  have hqueue := queueInv_reachable hstart s hs
  have hframe := frameInv_reachable hstart s hs
  have hcapture := hframe.capture hcalls
  obtain ⟨hpos, hphase⟩ := resetFilters_starts hstart
  have hinputs : s.capture.blocks.flatMap blockInputs = s.capture.blocks.flatMap blockTime := by
    refine List.flatMap_congr fun block hblock => ?_
    exact blockInputs_eq (hinv.fits block hblock)
      (hqueue.counts block (List.mem_append_left _ (hframe.handled.subset hblock)))
  constructor
  · have hhandled : s.capture.blocks.flatMap blockTime <+: s.timeline := by
      obtain ⟨later, hlater⟩ := hframe.handled
      rw [hinv.timeline, ← hlater, List.append_assoc, List.flatMap_append, List.append_assoc]
      exact List.prefix_append _ _
    exact hcapture.fed.trans (hinputs ▸ hhandled)
  · exact hcapture.samples
  · intro hflag
    have hshort := (hcapture.running hflag).1
    rw [Capture.iqIndex, hcapture.samples, (Filters.run_counts libm hpos hphase _).2.2] at hshort
    exact (Nat.div_lt_iff_lt_mul hpos).mp hshort
  · exact hcapture.full

end Steps

/-- A block behind five losses, and its inputs. -/
def lossActions : List (ReceiverAction Rat) :=
  [.initSampleStorage 1200 (bytes "150426") (bytes "0918"), .rxCallback [(1, 0)] 5, .dsp, .dsp,
    .dsp]

theorem lossActions_run :
    (execute (receiverStep .wspr plainLibm) exampleReceiver lossActions).isSome = true := by
  decide +kernel

/-- Five samples are lost in front of a block. -/
theorem loss_time_continuous :
    SampleTimeContinuous .wspr plainLibm (exampleReceiver.resetFilters .wspr)
      ((execute (receiverStep .wspr plainLibm) exampleReceiver lossActions).get
        lossActions_run) := by
  apply sample_time_continuous_when_kept (Option.some_get exampleReceiver_starts).symm
  · exact .get_execute lossActions (by decide +kernel) lossActions_run
  · exact List.cons_ne_nil _ _

/-- With the losses in front of it the count of the first block wraps around to 0. -/
def wrappedActions : List (ReceiverAction Rat) :=
  [.initSampleStorage 1200 (bytes "150426") (bytes "0918"), .rxCallback [(1, 0)] uint64Max,
    .rxCallback [(2, 0)] 0, .dsp, .dsp, .dsp, .dsp, .dsp, .dsp, .dsp, .dsp]

theorem wrappedActions_run :
    (execute (receiverStep .wspr plainLibm) exampleReceiver wrappedActions).isSome = true := by
  decide +kernel

/-- The losses of the first block fill 64 bits, so with its sample the sum is 0, and nothing of
the block is fed. The second block's sample is the first input of the frame, at the time of a
loss. -/
theorem wrapped_block_loses_time :
    ¬ ∀ s, Reachable (receiverStep .wspr plainLibm) anyStep exampleReceiver s → s.calls ≠ [] →
      s.timeline.countP (·.isNone) < 2 ^ 64 → s.capture.fed <+: s.timeline := by
  let final := (execute (receiverStep .wspr plainLibm) exampleReceiver wrappedActions).get
    wrappedActions_run
  have htimeline : final.timeline =
      ([] ++ transferTime true [⟨1, 0, 14095600, 1⟩] uint64Max) ++
        transferTime true [⟨2, 0, 14095600, 1⟩] 0 := rfl
  have hfed : final.capture.fed = [some ⟨2, 0, 14095600, 1⟩] := rfl
  have hlosses : final.timeline.countP (·.isNone) = 2 ^ 64 - 1 := by
    rw [htimeline, transferTime, transferTime]
    simp only [List.countP_append, List.countP_replicate]
    rfl
  have hhead : final.timeline.head? = some none := rfl
  intro h
  have hreached := Reachable.get_execute wrappedActions (allAllowed_anyStep _ _ _)
    wrappedActions_run
  obtain ⟨later, hlater⟩ := h final hreached (List.cons_ne_nil _ _) (by rw [hlosses]; decide)
  rw [← hlater, hfed] at hhead
  cases hhead

end AirspyhfWsprd.Receiver
