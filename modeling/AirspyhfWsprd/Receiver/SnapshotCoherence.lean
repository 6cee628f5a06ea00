import AirspyhfWsprd.Receiver.QueueSafety

/-!
What the decoder copies. Every part of a copy comes from one call of
`initSampleStorage`: while a frame is captured main neither tunes nor resets, so the
blocks taken into the frame were received after that call at its frequency.
-/

namespace AirspyhfWsprd.Receiver

open Library

variable {K : Type*}

/-- The samples of the block arrived in this session, at this dial frequency. -/
def ReceivedIn (session frequency : Nat) (block : Block K) : Prop :=
  ∀ sample ∈ block.samples, sample.session = session ∧ sample.frequency = frequency

section Definitions

variable [Field K] (mode : ReceiverMode) (libm : Libm K) (start : Filters K)

/-- The copy is of a frame that this call began, the call with this number. Its blocks are the
first that the queue has accepted since the call, received after it and at its frequency, and
its samples are what the reset filter gives for the inputs fed to it from these blocks. -/
structure CoherentCopy (session : Nat) (call : InitCall) (copy : FrameCopy K) : Prop where
  freq : copy.freq = call.frameDialfreq
  frameStartUnix : copy.frameStartUnix = call.frameStartUnix
  date : copy.date = copyText 7 call.frameDate
  uttime : copy.uttime = copyText 5 call.frameUttime
  samplesLen : copy.samplesLen = copy.samples.length
  pushed : copy.blocks.map (·.samples) <+: copy.accepted
  received : ∀ block ∈ copy.blocks, ReceivedIn session copy.freq block
  fed : copy.fed <+: copy.blocks.flatMap blockInputs
  /-- An input that is not filled with zero is a sample of one of the accepted pushes. -/
  inputs : ∀ sample, some sample ∈ copy.fed → (∃ push ∈ copy.accepted, sample ∈ push) ∧
    sample.session = session ∧ sample.frequency = copy.freq
  samples : copy.samples = start.outputs mode libm copy.fed
  device : copy.deviceDroppedSamples = dropTotal (·.deviceDroppedSamples) copy.blocks
  queue : copy.queueDroppedSamples = dropTotal (·.queueDroppedSamples) copy.blocks

/-- The copies are coherent, and no frame is longer than its target. -/
structure SnapshotsCoherent (s : ReceiverRun K) : Prop where
  copies : ∀ copy ∈ s.copies, ∃ index call, s.calls[index]? = some call ∧
    CoherentCopy mode libm start (index + 1) call copy
  iqIndex_le : s.capture.iqIndex ≤ captureSampleTarget mode

/-- The frame that is captured, or was captured last, belongs to the last call. -/
structure FrameInv (s : ReceiverRun K) : Prop where
  reset : s.capture.filters.reset mode = start
  idle : s.calls = [] → s.capture.captureFlag = false ∧ s.capture.samples = []
  capture : s.calls ≠ [] → CaptureInv mode libm start s.capture
  call : ∀ call, s.calls.getLast? = some call →
    s.capture.frameDialfreq = call.frameDialfreq ∧
    s.capture.frameStartUnix = call.frameStartUnix ∧
    s.capture.frameDate = copyText 7 call.frameDate ∧
    s.capture.frameUttime = copyText 5 call.frameUttime
  tuned : s.capture.captureFlag = true → s.main ≠ .between ∧
    s.dialfreq = s.capture.frameDialfreq ∧
    ∀ block ∈ unprocessed s, ReceivedIn s.calls.length s.capture.frameDialfreq block
  blocks : ∀ block ∈ s.capture.blocks, ReceivedIn s.calls.length s.capture.frameDialfreq block
  handled : s.capture.blocks <+: s.handled
  taken : s.capture.captureFlag = true → s.capture.blocks = s.handled
  /-- Only a frame that was begun is passed to the decoder. -/
  begun : (s.decodeFlag = true ∨ s.decoder = .copying ∨
    ∃ index slot, s.dsp = .processed index slot true) → s.calls ≠ []

end Definitions

theorem mem_blockInputs {block : Block K} {sample : ReceivedSample K}
    (h : some sample ∈ blockInputs block) : sample ∈ block.samples := by
  obtain ⟨index, -, hindex⟩ := List.mem_map.mp h
  split at hindex
  · exact List.mem_of_getElem? hindex
  · cases hindex

/-- An input that is not filled with zero is a sample of one of the blocks that the inputs come
from. -/
theorem mem_inputs {blocks : List (Block K)} {inputs : List (Option (ReceivedSample K))}
    (hinputs : inputs <+: blocks.flatMap blockInputs) {sample : ReceivedSample K}
    (h : some sample ∈ inputs) : ∃ block ∈ blocks, sample ∈ block.samples := by
  obtain ⟨block, hblock, hmem⟩ := List.mem_flatMap.mp (hinputs.subset h)
  exact ⟨block, hblock, mem_blockInputs hmem⟩

section Steps

variable [Field K] {mode : ReceiverMode} {libm : Libm K} {start : Filters K}
  {s t : ReceiverRun K}

/-- The blocks of the frame are the first of the pushes accepted since the last call. -/
theorem FrameInv.pushed (hqueue : QueueInv s) (hinv : FrameInv mode libm start s) :
    s.capture.blocks.map (·.samples) <+: s.accepted := by
  rw [hqueue.order]
  exact (hinv.handled.trans (List.prefix_append _ _)).map _

/-- The copy of the frame of the last call. -/
theorem copyFrame_coherent (hqueue : QueueInv s) (hinv : FrameInv mode libm start s)
    (hcalls : s.calls ≠ []) :
    ∃ index call, s.calls[index]? = some call ∧
      CoherentCopy mode libm start (index + 1) call (s.capture.copyFrame s.accepted) := by
  have hcapture := hinv.capture hcalls
  have hlast : s.calls.getLast? = some (s.calls.getLast hcalls) :=
    List.getLast?_eq_some_getLast hcalls
  obtain ⟨hfreq, hstart, hdate, huttime⟩ := hinv.call _ hlast
  have hnumber : s.calls.length - 1 + 1 = s.calls.length :=
    Nat.sub_add_cancel (List.length_pos_iff.mpr hcalls)
  have hpushed := hinv.pushed hqueue
  have hsamples (sample : ReceivedSample K) (hsample : some sample ∈ s.capture.fed) :
      (∃ push ∈ s.accepted, sample ∈ push) ∧ sample.session = s.calls.length ∧
        sample.frequency = s.capture.frameDialfreq := by
    obtain ⟨block, hblock, hmem⟩ := mem_inputs hcapture.fed hsample
    have hpush : block.samples ∈ s.accepted := hpushed.subset (List.mem_map_of_mem hblock)
    exact ⟨⟨block.samples, hpush, hmem⟩, hinv.blocks block hblock sample hmem⟩
  refine ⟨s.calls.length - 1, s.calls.getLast hcalls, ?_, ?_⟩
  · rw [← List.getLast?_eq_getElem?, hlast]
  · rw [hnumber]
    exact ⟨hfreq, hstart, hdate, huttime, rfl, hpushed, hinv.blocks, hcapture.fed, hsamples,
      hcapture.samples, hcapture.device, hcapture.queue⟩

theorem FrameInv.iqIndex_le (hinv : FrameInv mode libm start s) :
    s.capture.iqIndex ≤ captureSampleTarget mode := by
  rcases Decidable.em (s.calls = []) with hnone | hcalls
  · rw [Capture.iqIndex, (hinv.idle hnone).2]
    exact Nat.zero_le _
  · have hcapture := hinv.capture hcalls
    rcases hflag : s.capture.captureFlag
    · exact (hcapture.full hflag).1.le
    · exact (hcapture.running hflag).1.le

/-- A step that leaves the frame alone. -/
theorem FrameInv.kept (hinv : FrameInv mode libm start s) (hcapture : t.capture = s.capture)
    (hcalls : t.calls = s.calls) (hhandled : s.handled <+: t.handled)
    (htuned : s.capture.captureFlag = true → t.handled = s.handled ∧ t.main ≠ .between ∧
      t.dialfreq = s.dialfreq ∧ ∀ block ∈ unprocessed t, block ∈ unprocessed s ∨
        ReceivedIn s.calls.length s.dialfreq block)
    (hbegun : (t.decodeFlag = true ∨ t.decoder = .copying ∨
      ∃ index slot, t.dsp = .processed index slot true) → s.calls ≠ []) :
    FrameInv mode libm start t := by
  constructor
  · rw [hcapture]
    exact hinv.reset
  · rw [hcapture, hcalls]
    exact hinv.idle
  · rw [hcapture, hcalls]
    exact hinv.capture
  · rw [hcapture, hcalls]
    exact hinv.call
  · rw [hcapture, hcalls]
    intro hflag
    obtain ⟨-, hmain, hdialfreq, hblocks⟩ := htuned hflag
    obtain ⟨-, hfrequency, hold⟩ := hinv.tuned hflag
    refine ⟨hmain, hdialfreq.trans hfrequency, fun block hblock => ?_⟩
    rcases hblocks block hblock with hbefore | hnew
    · exact hold block hbefore
    · exact hfrequency ▸ hnew
  · rw [hcapture, hcalls]
    exact hinv.blocks
  · rw [hcapture]
    exact hinv.handled.trans hhandled
  · rw [hcapture]
    exact fun hflag => (hinv.taken hflag).trans (htuned hflag).1.symm
  · rw [hcalls]
    exact hbegun

/-- A step that leaves the frame, main and the blocks alone keeps the invariant when it passes
no frame to the decoder that was not begun. -/
theorem FrameInv.unmoved (hinv : FrameInv mode libm start s) (hcapture : t.capture = s.capture)
    (hcalls : t.calls = s.calls) (hhandled : t.handled = s.handled) (hmain : t.main = s.main)
    (hdialfreq : t.dialfreq = s.dialfreq)
    (hblocks : unprocessed t = unprocessed s)
    (hbegun : (t.decodeFlag = true ∨ t.decoder = .copying ∨
      ∃ index slot, t.dsp = .processed index slot true) → s.calls ≠ []) :
    FrameInv mode libm start t := by
  refine hinv.kept hcapture hcalls (hhandled ▸ List.prefix_rfl)
    (fun hflag => ⟨hhandled, ?_, hdialfreq, ?_⟩) hbegun
  · rw [hmain]
    exact (hinv.tuned hflag).1
  · rw [hblocks]
    exact fun block hblock => Or.inl hblock

/-- The DSP thread moves on without a frame for the decoder. -/
theorem dspMoves_frameInv (hinv : FrameInv mode libm start s) {dsp : DspPoint K}
    (hprocessed : dsp.slotProcessed = s.dsp.slotProcessed)
    (hincomplete : ∀ index slot, dsp ≠ .processed index slot true) :
    FrameInv mode libm start {s with dsp := dsp} := by
  refine hinv.unmoved rfl rfl rfl rfl rfl (unprocessed_dsp hprocessed) ?_
  rintro (hflag | hdecoder | ⟨index, slot, hdsp⟩)
  · exact hinv.begun (Or.inl hflag)
  · exact hinv.begun (Or.inr (Or.inl hdecoder))
  · exact absurd hdsp (hincomplete index slot)

/-- The decoder moves on. -/
theorem decoderMoves_frameInv (hinv : FrameInv mode libm start s) {decodeFlag : Bool}
    {decoder : DecoderPoint} {copies : List (FrameCopy K)}
    (hbegun : decodeFlag = true ∨ decoder = .copying → s.calls ≠ []) :
    FrameInv mode libm start
      {s with decodeFlag := decodeFlag, decoder := decoder, copies := copies} := by
  refine hinv.unmoved rfl rfl rfl rfl rfl rfl ?_
  rintro (hflag | hdecoder | hdsp)
  · exact hbegun (Or.inl hflag)
  · exact hbegun (Or.inr hdecoder)
  · exact hinv.begun (Or.inr (Or.inr hdsp))

/-- Main moves on without beginning a frame. -/
theorem mainMoves_frameInv (hinv : FrameInv mode libm start s) {main : MainPoint}
    {dialfreq : Nat} (hmain : s.capture.captureFlag = true → main ≠ .between)
    (hdialfreq : s.capture.captureFlag = true → dialfreq = s.dialfreq) :
    FrameInv mode libm start {s with main := main, dialfreq := dialfreq} :=
  hinv.kept rfl rfl List.prefix_rfl
    (fun hflag => ⟨rfl, hmain hflag, hdialfreq hflag, fun _ hblock => Or.inl hblock⟩) hinv.begun

/-- A block that arrives while a frame is captured was received at the frame's frequency and
after the frame began, since main does not tune during a capture. -/
theorem callback_frameInv (hqueue : QueueInv s) (hinv : FrameInv mode libm start s)
    (samples : List (K × K)) (droppedSamples : UInt64) :
    FrameInv mode libm start (rxCallback s samples droppedSamples) := by
  refine hinv.kept rfl rfl List.prefix_rfl (fun hflag => ?_) hinv.begun
  refine ⟨rfl, (hinv.tuned hflag).1, rfl, fun block hblock => ?_⟩
  rw [unprocessed_callback hqueue] at hblock
  split at hblock
  · rcases List.mem_append.mp hblock with hold | hnew
    · exact Or.inl hold
    · rw [List.mem_singleton.mp hnew]
      refine Or.inr fun sample hsample => ?_
      obtain ⟨values, -, rfl⟩ := List.mem_map.mp hsample
      exact ⟨rfl, rfl⟩
  · exact Or.inl hblock

/-- The call begins a frame without samples or blocks, and nothing is left in the queue that
was received before it. -/
theorem inits_frameInv (hinv : FrameInv mode libm start s) (frameStartUnix : Int)
    (frameDate frameUttime : CString) :
    FrameInv mode libm start (initSampleStorage mode s frameStartUnix frameDate frameUttime) := by
  have hcalls : s.calls ++ [⟨s.dialfreq, frameStartUnix, frameDate, frameUttime⟩] ≠ [] :=
    List.append_ne_nil_of_right_ne_nil _ (List.cons_ne_nil _ _)
  constructor
  · exact (Filters.reset_reset _).trans hinv.reset
  · exact fun hnone => absurd hnone hcalls
  · exact fun _ => Capture.start_inv hinv.reset _ _ _ _
  · intro call hcall
    rw [initSampleStorage, List.getLast?_concat] at hcall
    obtain rfl := Option.some.inj hcall
    exact ⟨rfl, rfl, rfl, rfl⟩
  · rw [unprocessed_init]
    refine fun _ => ⟨?_, rfl, ?_⟩
    · intro hbetween
      cases hbetween
    · exact fun _ hblock => absurd hblock List.not_mem_nil
  · exact fun _ hblock => absurd hblock List.not_mem_nil
  · exact List.prefix_rfl
  · exact fun _ => rfl
  · exact fun _ => hcalls

/-- While a frame is captured, a block goes into it. -/
theorem FrameInv.block_effect (hpos : 0 < start.factor mode) (hphase : start.phase mode = 0)
    (hinv : FrameInv mode libm start s) (hflag : s.capture.captureFlag = true) (block : Block K) :
    BlockEffect mode libm start s.capture block
      (processSampleBlock mode libm s.capture block) := by
  have hcalls : s.calls ≠ [] := fun hnone =>
    absurd (hflag.symm.trans (hinv.idle hnone).1) (by decide)
  exact processSampleBlock_effect hpos hphase (hinv.capture hcalls) block

/-- The block that is processed goes into the frame when one is captured. All blocks that wait
then were received in the frame, and the blocks taken so far are those that were handled. -/
theorem processes_frameInv (hpos : 0 < start.factor mode) (hphase : start.phase mode = 0)
    (hqueue : QueueInv s) (hinv : FrameInv mode libm start s) {index : Nat} {slot : Block K}
    (hdsp : s.dsp = .peeked index slot) :
    FrameInv mode libm start {s with
      capture := (processSampleBlock mode libm s.capture slot).2
      handled := s.handled ++ [slot]
      dsp := .processed index slot (processSampleBlock mode libm s.capture slot).1} := by
  have hbefore := unprocessed_peeked hqueue hdsp
  have hlater (block : Block K) (hblock : block ∈ s.queue.contents.tail) :
      block ∈ unprocessed s := by
    rw [hbefore]
    exact List.mem_cons_of_mem _ hblock
  have hbegun (hcomplete : (processSampleBlock mode libm s.capture slot).1 = true → s.calls ≠ []) :
      (s.decodeFlag = true ∨ s.decoder = .copying ∨ ∃ other block, (DspPoint.processed index slot
        (processSampleBlock mode libm s.capture slot).1) = .processed other block true) →
        s.calls ≠ [] := by
    rintro (hflag | hdecoder | ⟨other, block, hprocessed⟩)
    · exact hinv.begun (Or.inl hflag)
    · exact hinv.begun (Or.inr (Or.inl hdecoder))
    · exact hcomplete (DspPoint.processed.inj hprocessed).2.2
  rcases Decidable.em (s.calls = []) with hnone | hcalls
  · -- No frame has begun: the block is ignored.
    have hidle := (hinv.idle hnone).1
    have hignored : processSampleBlock mode libm s.capture slot = (false, s.capture) :=
      processSampleBlock_ignored hidle slot
    refine hinv.kept (by rw [hignored]) rfl (List.prefix_append _ _) (fun hflag => ?_) (hbegun ?_)
    · exact absurd (hidle.symm.trans hflag) nofun
    · rw [hignored]
      exact nofun
  · have heffect := processSampleBlock_effect hpos hphase (hinv.capture hcalls) slot
    have hflags : (processSampleBlock mode libm s.capture slot).2.captureFlag = true →
        s.capture.captureFlag = true := by
      rw [heffect.flag]
      exact fun hflag => (Bool.and_eq_true_iff.mp hflag).1
    constructor
    · rw [heffect.inv.filters, Filters.reset_run, ← hinv.reset, Filters.reset_reset]
    · exact fun hnone => absurd hnone hcalls
    · exact fun _ => heffect.inv
    · dsimp only
      rw [heffect.frameDialfreq, heffect.frameStartUnix, heffect.frameDate, heffect.frameUttime]
      exact hinv.call
    · dsimp only
      rw [heffect.frameDialfreq]
      intro hflag
      obtain ⟨hmain, hdialfreq, hblocks⟩ := hinv.tuned (hflags hflag)
      exact ⟨hmain, hdialfreq, fun block hblock => hblocks block (hlater block hblock)⟩
    · dsimp only
      rw [heffect.blocks, heffect.frameDialfreq]
      split
      · rename_i hflag
        have hslot : slot ∈ unprocessed s := by
          rw [hbefore]
          exact List.mem_cons_self
        intro block hblock
        rcases List.mem_append.mp hblock with hold | hnew
        · exact hinv.blocks block hold
        · rw [List.mem_singleton.mp hnew]
          exact (hinv.tuned hflag).2.2 slot hslot
      · exact hinv.blocks
    · dsimp only
      rw [heffect.blocks]
      split
      · rename_i hflag
        rw [hinv.taken hflag]
      · exact hinv.handled.trans (List.prefix_append _ _)
    · dsimp only
      intro hflag
      rw [heffect.blocks, if_pos (hflags hflag), hinv.taken (hflags hflag)]
    · exact hbegun fun _ => hcalls

/-- Every step of every thread keeps the invariant. Only the callback, main's call and the
processing of a block touch what it says of blocks and samples. -/
theorem frameInv_step (hpos : 0 < start.factor mode) (hphase : start.phase mode = 0)
    (hqueue : QueueInv s) (hinv : FrameInv mode libm start s) {a : ReceiverAction K}
    (hstep : receiverStep mode libm s a = some t) : FrameInv mode libm start t := by
  cases receiverStep_effect hstep with
  | callback hmain => exact callback_frameInv hqueue hinv _ _
  | dspWakes hdsp => exact dspMoves_frameInv hinv (hdsp ▸ rfl) nofun
  | dspExits hdsp => exact dspMoves_frameInv hinv (hdsp ▸ rfl) nofun
  | dspPeeks hdsp hcount => exact dspMoves_frameInv hinv (hdsp ▸ rfl) nofun
  | dspFindsNothing hdsp => exact dspMoves_frameInv hinv (hdsp ▸ rfl) nofun
  | @dspProcesses index slot hdsp =>
      have hslot : s.dsp.slot = some (index, slot) := hdsp ▸ rfl
      rw [hqueue.block_eq hslot]
      exact processes_frameInv hpos hphase hqueue hinv hdsp
  | @dspSignals index slot frameComplete hdsp =>
      have hblocks : unprocessed {s with dsp := .releasing index slot} = unprocessed s :=
        unprocessed_dsp (hdsp ▸ rfl)
      refine hinv.unmoved rfl rfl rfl rfl rfl hblocks ?_
      rintro (hflag | hdecoder | ⟨other, block, hprocessed⟩)
      · rcases Bool.or_eq_true_iff.mp hflag with hflag | rfl
        · exact hinv.begun (Or.inl hflag)
        · exact hinv.begun (Or.inr (Or.inr ⟨index, slot, hdsp⟩))
      · exact hinv.begun (Or.inr (Or.inl hdecoder))
      · cases hprocessed
  | @dspReleases index slot hdsp =>
      refine hinv.unmoved rfl rfl rfl rfl rfl (unprocessed_releasing hqueue hdsp).symm ?_
      rintro (hflag | hdecoder | ⟨other, block, hprocessed⟩)
      · exact hinv.begun (Or.inl hflag)
      · exact hinv.begun (Or.inr (Or.inl hdecoder))
      · cases hprocessed
  | inits hmain hdsp => exact inits_frameInv hinv _ _ _
  | tunes hmain =>
      exact mainMoves_frameInv hinv (fun hflag => (hinv.tuned hflag).1)
        fun hflag => absurd hmain (hinv.tuned hflag).1
  | seesCapture => exact hinv
  | seesEnd hmain hflag =>
      exact mainMoves_frameInv hinv (fun hrunning => absurd (hflag.symm.trans hrunning) nofun)
        fun _ => rfl
  | leaves hmain => exact mainMoves_frameInv hinv (fun _ => nofun) fun _ => rfl
  | stops hmain =>
      exact hinv.kept rfl rfl List.prefix_rfl
        (fun hflag => ⟨rfl, nofun, rfl, fun block hblock => Or.inl hblock⟩) hinv.begun
  | decoderExits hdecoder => exact decoderMoves_frameInv hinv (fun h => nomatch h)
  | decoderWakes hdecoder hflag =>
      exact decoderMoves_frameInv hinv fun _ => hinv.begun (Or.inl hflag)
  | decoderCopies hdecoder =>
      exact decoderMoves_frameInv hinv fun _ => hinv.begun (Or.inr (Or.inl hdecoder))
  | decoderFinishes hdecoder =>
      exact decoderMoves_frameInv hinv fun h => hinv.begun (Or.inl (h.resolve_right nofun))
  | decoderGivesUp hdecoder =>
      exact decoderMoves_frameInv hinv fun h => hinv.begun (Or.inl (h.resolve_right nofun))
  | exits => exact hinv.unmoved rfl rfl rfl rfl rfl rfl hinv.begun

/-- The filters as `initSampleStorage` leaves them in every session. -/
def ReceiverRun.resetFilters (mode : ReceiverMode) (receiver : ReceiverRun K) : Filters K :=
  receiver.capture.filters.reset mode

theorem resetFilters_starts {rate blockCapacity dialfreq : Nat} {receiver : ReceiverRun K}
    (hstart : receiverRunStart mode libm rate blockCapacity dialfreq = some receiver) :
    0 < (receiver.resetFilters mode).factor mode ∧ (receiver.resetFilters mode).phase mode = 0 := by
  obtain ⟨filters, queue, hfilters, -, rfl⟩ := receiverRunStart_eq hstart
  obtain ⟨hphase, hfactor⟩ := Filters.reset_starts mode filters
  exact ⟨hfactor ▸ filtersInit_factor hfilters, hphase⟩

variable {rate blockCapacity dialfreq : Nat} {receiver : ReceiverRun K}
  {allowed : ReceiverRun K → ReceiverAction K → Prop}

theorem frameInv_reachable
    (hstart : receiverRunStart mode libm rate blockCapacity dialfreq = some receiver) :
    ∀ s, Reachable (receiverStep mode libm) allowed receiver s →
      FrameInv mode libm (receiver.resetFilters mode) s := by
  obtain ⟨hpos, hphase⟩ := resetFilters_starts hstart
  refine Reachable.invariant ?_ fun s _ _ hs hinv _ hstep =>
    frameInv_step hpos hphase (queueInv_reachable hstart s hs) hinv hstep
  obtain ⟨filters, queue, -, -, rfl⟩ := receiverRunStart_eq hstart
  exact ⟨rfl, fun _ => ⟨rfl, rfl⟩, fun hcalls => absurd rfl hcalls, nofun, nofun, nofun,
    List.prefix_rfl, nofun, nofun⟩

/-- A copy stays coherent when further frames are begun. -/
theorem copies_coherent_step {start : Filters K} (hqueue : QueueInv s)
    (hinv : FrameInv mode libm start s)
    (hcopies : ∀ copy ∈ s.copies, ∃ index call, s.calls[index]? = some call ∧
      CoherentCopy mode libm start (index + 1) call copy)
    {a : ReceiverAction K} (hstep : receiverStep mode libm s a = some t) :
    ∀ copy ∈ t.copies, ∃ index call, t.calls[index]? = some call ∧
      CoherentCopy mode libm start (index + 1) call copy := by
  cases receiverStep_effect hstep with
  | inits hmain hdsp =>
      intro copy hcopy
      obtain ⟨index, call, hcall, hcoherent⟩ := hcopies copy hcopy
      refine ⟨index, call, ?_, hcoherent⟩
      obtain ⟨hindex, -⟩ := List.getElem?_eq_some_iff.mp hcall
      rw [initSampleStorage, List.getElem?_append_left hindex]
      exact hcall
  | decoderCopies hdecoder =>
      have hcoherent := copyFrame_coherent hqueue hinv (hinv.begun (Or.inr (Or.inl hdecoder)))
      intro copy hcopy
      rcases List.mem_append.mp hcopy with hold | hnew
      · exact hcopies copy hold
      · rw [List.mem_singleton.mp hnew]
        exact hcoherent
  | callback | dspWakes | dspExits | dspPeeks | dspFindsNothing | dspProcesses | dspSignals
  | dspReleases | tunes | seesCapture | seesEnd | leaves | stops | decoderExits | decoderWakes
  | decoderFinishes | decoderGivesUp | exits => exact hcopies

/-- In every interleaving every copy is of one frame: each of its samples is one that the queue
accepted after the frame began and that was received at its frequency. A copy carries the
blocks it was made of, and the queue hands these out in the order of the pushes. -/
theorem snapshots_coherent_in_every_run
    (hstart : receiverRunStart mode libm rate blockCapacity dialfreq = some receiver)
    (hs : Reachable (receiverStep mode libm) anyStep receiver s) :
    SnapshotsCoherent mode libm (receiver.resetFilters mode) s := by
  have hframe : ∀ s, Reachable (receiverStep mode libm) anyStep receiver s →
      FrameInv mode libm (receiver.resetFilters mode) s := frameInv_reachable hstart
  have hcopies : ∀ s, Reachable (receiverStep mode libm) anyStep receiver s →
      ∀ copy ∈ s.copies, ∃ index call, s.calls[index]? = some call ∧
        CoherentCopy mode libm (receiver.resetFilters mode) (index + 1) call copy := by
    refine Reachable.invariant ?_ fun s _ _ hs hcopies _ hstep =>
      copies_coherent_step (queueInv_reachable hstart s hs) (hframe s hs) hcopies hstep
    obtain ⟨filters, queue, -, -, rfl⟩ := receiverRunStart_eq hstart
    exact nofun
  exact ⟨hcopies s hs, (hframe s hs).iqIndex_le⟩

end Steps

/-- A frame begins, and a block behind as many losses as a frame takes is peeked. -/
def frameActions : List (ReceiverAction Rat) :=
  [.initSampleStorage 1200 (bytes "150426") (bytes "0918"), .rxCallback [(1, 0)] 87000, .dsp, .dsp]

theorem frameActions_run :
    (execute (receiverStep .wspr plainLibm) exampleReceiver frameActions).isSome = true := by
  decide +kernel

def frameRun : ReceiverRun Rat :=
  (execute (receiverStep .wspr plainLibm) exampleReceiver frameActions).get frameActions_run

def frameSlot : Block Rat := ⟨[⟨1, 0, 14095600, 1⟩], 1, 87000, 0⟩

/-- The block is processed, and the frame complete. -/
def completedRun (capture : Capture Rat) : ReceiverRun Rat :=
  {frameRun with
    capture := capture
    handled := frameRun.handled ++ [frameSlot]
    dsp := .processed 0 frameSlot true}

/-- In the example the block with its losses fills the whole frame. The number of inputs is too
large to evaluate, so it follows from the general lemma on long blocks. -/
theorem frame_completes :
    ∃ capture, capture.captureFlag = false ∧
      receiverStep .wspr plainLibm frameRun .dsp = some (completedRun capture) := by
  obtain ⟨hpos, hphase⟩ := resetFilters_starts (Option.some_get exampleReceiver_starts).symm
  have hstart : CaptureInv .wspr plainLibm (exampleReceiver.resetFilters .wspr) frameRun.capture :=
    Capture.start_inv rfl _ _ _ _
  have hlong : captureSampleTarget .wspr * (exampleReceiver.resetFilters .wspr).factor .wspr ≤
      frameRun.capture.fed.length + (blockInputs frameSlot).length := by
    rw [blockInputs, List.length_map, List.length_range]
    decide +kernel
  obtain ⟨capture, hflag, hcapture⟩ := processSampleBlock_completes hpos hphase hstart rfl hlong
  have hdsp : frameRun.dsp = .peeked 0 frameSlot := rfl
  have hslot : ({frameSlot with samples := (frameRun.queue.slots 0).samples} : Block Rat) =
      frameSlot := rfl
  exact ⟨capture, hflag, dsp_processes hdsp hslot hcapture⟩

/-- The decoder copies the frame and decodes it. -/
def copyingActions : List (ReceiverAction Rat) := [.dsp, .dsp, .decoder, .decoder, .decoder]

theorem copying_run (capture : Capture Rat) :
    ∃ t, execute (receiverStep .wspr plainLibm) (completedRun capture) copyingActions = some t ∧
      t.decoder = .waiting ∧ t.copies.length = 1 :=
  ⟨_, rfl, rfl, rfl⟩

theorem frameRun_reached (allowed : ReceiverRun Rat → ReceiverAction Rat → Prop)
    (hallowed : AllAllowed (receiverStep .wspr plainLibm) allowed exampleReceiver frameActions) :
    Reachable (receiverStep .wspr plainLibm) allowed exampleReceiver frameRun :=
  .get_execute frameActions hallowed frameActions_run

/-- The frame is copied once it is complete. -/
theorem oneFrame_snapshots_coherent :
    ∃ s, Reachable (receiverStep .wspr plainLibm) anyStep exampleReceiver s ∧
      s.copies.length = 1 ∧
        SnapshotsCoherent .wspr plainLibm (exampleReceiver.resetFilters .wspr) s := by
  obtain ⟨capture, -, hstep⟩ := frame_completes
  obtain ⟨t, hrun, -, hcopies⟩ := copying_run capture
  have hframe := frameRun_reached anyStep (allAllowed_anyStep _ _ _)
  have ht := Reachable.of_execute copyingActions (hframe.next trivial hstep)
    (allAllowed_anyStep _ _ _) hrun
  exact ⟨t, ht, hcopies,
    snapshots_coherent_in_every_run (Option.some_get exampleReceiver_starts).symm ht⟩

end AirspyhfWsprd.Receiver
