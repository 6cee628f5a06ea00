import AirspyhfWsprd.Receiver.SnapshotCoherence

/-!
The handover of a finished frame. `decode_flag` says that the samples of `rx_state` wait
for the decoder, and nothing keeps main from beginning the next frame before they are
copied. Where it does not, every finished frame is copied once, whole and in order.
-/

namespace AirspyhfWsprd.Receiver

open Library

variable {K : Type*}

/-- A finished frame waits to be copied. -/
def Outstanding (s : ReceiverRun K) : Prop := s.decodeFlag = true ∨ s.decoder = .copying

/-- The steps that overtake no frame: main begins one when none waits to be copied, or when
the decoder copies no more. -/
def CopiedBeforeNext (s : ReceiverRun K) : ReceiverAction K → Prop
  | .initSampleStorage _ _ _ =>
      s.decoder = .exited ∨ (s.decodeFlag = false ∧ s.decoder ≠ .copying)
  | _ => True

instance (s : ReceiverRun K) : (a : ReceiverAction K) → Decidable (CopiedBeforeNext s a)
  | .initSampleStorage .. => inferInstanceAs (Decidable (_ = _ ∨ (_ = false ∧ _ ≠ _)))
  | .rxCallback .. | .dsp | .tune .. | .pollCapture | .leaveLoop | .stopQueue | .decoder
  | .decoderGivesUp | .exit => isTrue trivial

/-- Copies are whole frames, and once the decoder is idle each finished frame has been
copied exactly once. -/
structure FramesHandedOver (mode : ReceiverMode) (s : ReceiverRun K) : Prop where
  whole : ∀ copy ∈ s.copies, copy.samplesLen = captureSampleTarget mode ∧
    copy.samples.length = captureSampleTarget mode
  order : s.copies.map (·.samples) <+: s.finished
  idle : s.decoder = .waiting → s.decodeFlag = false → s.copies.map (·.samples) = s.finished

/-- The frame in `rx_state` is finished. -/
def FrameDone (mode : ReceiverMode) (s : ReceiverRun K) : Prop :=
  s.capture.captureFlag = false ∧ s.capture.samples.length = captureSampleTarget mode

/-- What holds as long as the decoder runs. -/
structure DecoderRuns (mode : ReceiverMode) (s : ReceiverRun K) : Prop where
  waits : Outstanding s → FrameDone mode s ∧
    s.finished = s.copies.map (·.samples) ++ [s.capture.samples]
  copied : ¬ Outstanding s → s.finished = s.copies.map (·.samples)
  /-- A frame that is complete but not signalled is the only one that is not copied. -/
  complete : ∀ index slot, s.dsp = .processed index slot true → ¬ Outstanding s
  once : s.decodeFlag = true → s.decoder ≠ .copying

structure HandoverInv (mode : ReceiverMode) (s : ReceiverRun K) : Prop where
  whole : ∀ copy ∈ s.copies, copy.samplesLen = captureSampleTarget mode ∧
    copy.samples.length = captureSampleTarget mode
  order : s.copies.map (·.samples) <+: s.finished
  done : ∀ index slot, s.dsp = .processed index slot true → FrameDone mode s
  runs : s.decoder ≠ .exited → DecoderRuns mode s

section Steps

variable {mode : ReceiverMode} {s t : ReceiverRun K}

theorem HandoverInv.handedOver (hinv : HandoverInv mode s) : FramesHandedOver mode s where
  whole := hinv.whole
  order := hinv.order
  idle hdecoder hflag := by
    have hruns := hinv.runs (hdecoder ▸ nofun)
    refine (hruns.copied ?_).symm
    rintro (hwaits | hcopying)
    · exact absurd (hflag.symm.trans hwaits) (by decide)
    · exact absurd (hdecoder.symm.trans hcopying) nofun

/-- A step that touches neither the frame nor the handover. -/
theorem HandoverInv.kept (hinv : HandoverInv mode s) (hcapture : t.capture = s.capture)
    (hflag : t.decodeFlag = s.decodeFlag) (hcopying : t.decoder = .copying ↔ s.decoder = .copying)
    (hexited : t.decoder ≠ .exited → s.decoder ≠ .exited) (hfinished : t.finished = s.finished)
    (hcopies : t.copies = s.copies)
    (hdsp : ∀ index slot, t.dsp = .processed index slot true → s.dsp = .processed index slot true) :
    HandoverInv mode t := by
  have houtstanding : Outstanding t ↔ Outstanding s := by
    rw [Outstanding, Outstanding, hflag, hcopying]
  have hdone : FrameDone mode t ↔ FrameDone mode s := by
    rw [FrameDone, FrameDone, hcapture]
  constructor
  · rw [hcopies]
    exact hinv.whole
  · rw [hcopies, hfinished]
    exact hinv.order
  · exact fun index slot h => hdone.mpr (hinv.done index slot (hdsp index slot h))
  · intro hruns
    have hbefore := hinv.runs (hexited hruns)
    constructor
    · rw [houtstanding, hdone, hfinished, hcopies, hcapture]
      exact hbefore.waits
    · rw [houtstanding, hfinished, hcopies]
      exact hbefore.copied
    · intro index slot h
      rw [houtstanding]
      exact hbefore.complete index slot (hdsp index slot h)
    · rw [hflag, Ne, hcopying]
      exact hbefore.once

/-- The DSP thread moves on without a finished frame. -/
theorem dspMoves_handoverInv (hinv : HandoverInv mode s) {dsp : DspPoint K}
    {queue : SampleQueue (ReceivedSample K)}
    (hincomplete : ∀ index slot, dsp ≠ .processed index slot true) :
    HandoverInv mode {s with dsp := dsp, queue := queue} :=
  hinv.kept rfl rfl Iff.rfl id rfl rfl fun index slot h => absurd h (hincomplete index slot)

/-- Once the decoder has ended, only what it has copied matters. -/
theorem exits_handoverInv (hinv : HandoverInv mode s) {decodeFlag : Bool} :
    HandoverInv mode {s with decodeFlag := decodeFlag, decoder := .exited} :=
  ⟨hinv.whole, hinv.order, hinv.done, fun h => absurd rfl h⟩

theorem wakes_handoverInv (hinv : HandoverInv mode s) (hdecoder : s.decoder = .waiting)
    (hflag : s.decodeFlag = true) :
    HandoverInv mode {s with decodeFlag := false, decoder := .copying} := by
  have hruns := hinv.runs (hdecoder ▸ nofun)
  have hbefore : Outstanding s := Or.inl hflag
  refine ⟨hinv.whole, hinv.order, hinv.done, fun _ => ⟨fun _ => hruns.waits hbefore, ?_, ?_, nofun⟩⟩
  · exact fun hnone => absurd (Or.inr rfl) hnone
  · exact fun index slot h => absurd hbefore (hruns.complete index slot h)

/-- The copy that the decoder takes is of the finished frame that waited for it, so the copies
are again all frames that have been finished. -/
theorem copies_handoverInv (hinv : HandoverInv mode s) (hdecoder : s.decoder = .copying) :
    HandoverInv mode
      {s with copies := s.copies ++ [s.capture.copyFrame s.accepted], decoder := .decoding} := by
  have hruns := hinv.runs (hdecoder ▸ nofun)
  obtain ⟨hdone, hfinished⟩ := hruns.waits (Or.inr hdecoder)
  have hcopied : s.finished = (s.copies ++ [s.capture.copyFrame s.accepted]).map (·.samples) := by
    rw [hfinished, List.map_append]
    rfl
  have hnone : ¬ Outstanding {s with
      copies := s.copies ++ [s.capture.copyFrame s.accepted], decoder := .decoding} := by
    rintro (hflag | hcopying)
    · exact hruns.once hflag hdecoder
    · cases hcopying
  constructor
  · intro copy hcopy
    rcases List.mem_append.mp hcopy with hold | hnew
    · exact hinv.whole copy hold
    · rw [List.mem_singleton.mp hnew]
      exact ⟨hdone.2, hdone.2⟩
  · rw [hcopied]
  · exact hinv.done
  · intro _
    refine ⟨fun h => absurd h hnone, fun _ => hcopied, fun _ _ _ => hnone, fun _ => nofun⟩

/-- The frame that the DSP thread signals is the one that waits for the decoder. -/
theorem signals_handoverInv (hinv : HandoverInv mode s) {index : Nat} {slot : Block K}
    {frameComplete : Bool} (hdsp : s.dsp = .processed index slot frameComplete) :
    HandoverInv mode {s with
      decodeFlag := s.decodeFlag || frameComplete
      finished := if frameComplete then s.finished ++ [s.capture.samples] else s.finished
      dsp := .releasing index slot} := by
  cases frameComplete with
  | false =>
      rw [Bool.or_false, if_neg Bool.false_ne_true]
      exact hinv.kept rfl rfl Iff.rfl id rfl rfl fun _ _ h => nomatch h
  | true =>
      rw [Bool.or_true, if_pos rfl]
      refine ⟨hinv.whole, hinv.order.trans (List.prefix_append _ _), nofun, fun hruns => ?_⟩
      have hbefore := hinv.runs hruns
      have hnone := hbefore.complete index slot hdsp
      refine ⟨fun _ => ⟨hinv.done index slot hdsp, ?_⟩, fun h => absurd (Or.inl rfl) h, nofun, ?_⟩
      · rw [hbefore.copied hnone]
      · exact fun _ hcopying => hnone (Or.inr hcopying)

variable [Field K] {libm : Libm K} {start : Filters K}

/-- Main may begin a frame when none waits: the frame that is given up has been copied, or the
decoder will copy no more. -/
theorem init_handoverInv (hinv : HandoverInv mode s) (hslot : s.dsp.slot = none)
    (hcopied : s.decoder = .exited ∨ (s.decodeFlag = false ∧ s.decoder ≠ .copying))
    (frameStartUnix : Int) (frameDate frameUttime : CString) :
    HandoverInv mode (initSampleStorage mode s frameStartUnix frameDate frameUttime) := by
  have hdsp : ∀ index slot, s.dsp ≠ .processed index slot true := by
    intro index slot h
    rw [h] at hslot
    cases hslot
  refine ⟨hinv.whole, hinv.order, fun index slot h => absurd h (hdsp index slot), fun hruns => ?_⟩
  have hbefore := hinv.runs hruns
  obtain ⟨hflag, hcopying⟩ := hcopied.resolve_left hruns
  have hnone : ¬ Outstanding s := by
    rintro (hwaits | hcopies)
    · exact absurd (hflag.symm.trans hwaits) (by decide)
    · exact hcopying hcopies
  exact ⟨fun h => absurd h hnone, fun _ => hbefore.copied hnone, fun _ _ _ => hnone, hbefore.once⟩

/-- A block of the frame that is being captured does not touch the handover. No finished frame
waits then, since the capture of a finished frame has ended. -/
theorem processes_handoverInv (hpos : 0 < start.factor mode) (hphase : start.phase mode = 0)
    (hframe : FrameInv mode libm start s) (hinv : HandoverInv mode s) {index : Nat}
    {slot : Block K} :
    HandoverInv mode {s with
      capture := (processSampleBlock mode libm s.capture slot).2
      handled := s.handled ++ [slot]
      dsp := .processed index slot (processSampleBlock mode libm s.capture slot).1} := by
  rcases hflag : s.capture.captureFlag
  · rw [processSampleBlock_ignored hflag]
    exact hinv.kept rfl rfl Iff.rfl id rfl rfl fun _ _ h => nomatch h
  · have heffect := hframe.block_effect hpos hphase hflag slot
    refine ⟨hinv.whole, hinv.order, fun other block h => ?_, fun hruns => ?_⟩
    · have hcomplete := (DspPoint.processed.inj h).2.2
      have hended : (processSampleBlock mode libm s.capture slot).2.captureFlag = false := by
        rw [heffect.flag, hcomplete]
        exact Bool.and_false _
      exact ⟨hended, (heffect.inv.full hended).1⟩
    · have hbefore := hinv.runs hruns
      have hnone : ¬ Outstanding s := fun h =>
        absurd (hflag.symm.trans (hbefore.waits h).1.1) (by decide)
      exact ⟨fun h => absurd h hnone, fun _ => hbefore.copied hnone, fun _ _ _ => hnone,
        hbefore.once⟩

/-- Each step that overtakes no frame keeps the invariant. The interesting cases are the signal
of the DSP thread, the beginning of a frame and the decoder's copy. -/
theorem handoverInv_step (hpos : 0 < start.factor mode) (hphase : start.phase mode = 0)
    (hqueue : QueueInv s) (hframe : FrameInv mode libm start s) (hinv : HandoverInv mode s)
    {a : ReceiverAction K} (hcopied : CopiedBeforeNext s a)
    (hstep : receiverStep mode libm s a = some t) : HandoverInv mode t := by
  cases receiverStep_effect hstep with
  | @dspProcesses index slot hdsp =>
      have hslot : s.dsp.slot = some (index, slot) := hdsp ▸ rfl
      rw [hqueue.block_eq hslot]
      exact processes_handoverInv hpos hphase hframe hinv
  | dspSignals hdsp => exact signals_handoverInv hinv hdsp
  | inits hmain hdsp => exact init_handoverInv hinv hdsp hcopied _ _ _
  | decoderWakes hdecoder hflag => exact wakes_handoverInv hinv hdecoder hflag
  | decoderCopies hdecoder => exact copies_handoverInv hinv hdecoder
  | decoderExits hdecoder => exact exits_handoverInv hinv
  | decoderGivesUp hdecoder => exact exits_handoverInv hinv
  | decoderFinishes hdecoder =>
      refine hinv.kept rfl rfl ?_ (fun _ => hdecoder ▸ nofun) rfl rfl fun _ _ h => h
      rw [hdecoder]
      exact ⟨nofun, nofun⟩
  | dspWakes | dspExits | dspPeeks | dspFindsNothing | dspReleases =>
      exact dspMoves_handoverInv hinv nofun
  | callback | tunes | seesCapture | seesEnd | leaves | stops | exits =>
      exact hinv.kept rfl rfl Iff.rfl id rfl rfl fun _ _ h => h

variable {rate blockCapacity dialfreq : Nat} {receiver : ReceiverRun K}

theorem handoverInv_reachable
    (hstart : receiverRunStart mode libm rate blockCapacity dialfreq = some receiver) :
    ∀ s, Reachable (receiverStep mode libm) CopiedBeforeNext receiver s → HandoverInv mode s := by
  obtain ⟨hpos, hphase⟩ := resetFilters_starts hstart
  refine Reachable.invariant ?_ fun s _ _ hs hinv hcopied hstep =>
    handoverInv_step hpos hphase (queueInv_reachable hstart s hs) (frameInv_reachable hstart s hs)
      hinv hcopied hstep
  obtain ⟨filters, queue, -, -, rfl⟩ := receiverRunStart_eq hstart
  refine ⟨nofun, List.prefix_rfl, nofun, fun _ => ⟨?_, fun _ => rfl, nofun, nofun⟩⟩
  rintro (hflag | hcopying)
  · cases hflag
  · cases hcopying

/-- In every run in which main overtakes no frame, the frames are handed over: what the decoder
copies is a whole frame, and once it is idle every finished frame has been copied once. The
condition is on main alone, whatever order the other threads run in. -/
theorem frames_handed_over_when_copied
    (hstart : receiverRunStart mode libm rate blockCapacity dialfreq = some receiver)
    (hs : Reachable (receiverStep mode libm) CopiedBeforeNext receiver s) :
    FramesHandedOver mode s :=
  (handoverInv_reachable hstart s hs).handedOver

end Steps

/-- Main sees the end of the frame and begins the next one before the decoder copies it. -/
def overtakingActions : List (ReceiverAction Rat) :=
  [.dsp, .dsp, .pollCapture, .initSampleStorage 1320 (bytes "150426") (bytes "0920"), .decoder,
    .decoder]

theorem overtaking_run {capture : Capture Rat} (hflag : capture.captureFlag = false) :
    ∃ t, execute (receiverStep .wspr plainLibm) (completedRun capture) overtakingActions = some t ∧
      t.copies.map (·.samplesLen) = [0] := by
  rcases capture with ⟨captureFlag⟩
  obtain rfl : captureFlag = false := hflag
  exact ⟨_, rfl, rfl⟩

theorem copyingActions_allowed :
    ∀ a ∈ copyingActions, ∀ s : ReceiverRun Rat, CopiedBeforeNext s a := by
  intro a ha s
  simp only [copyingActions, List.mem_cons, List.not_mem_nil, or_false] at ha
  rcases ha with rfl | rfl | rfl | rfl | rfl <;> trivial

/-- One frame is copied, and the decoder idle again. -/
theorem oneFrame_handed_over :
    ∃ s, Reachable (receiverStep .wspr plainLibm) CopiedBeforeNext exampleReceiver s ∧
      s.decoder = .waiting ∧ s.copies.length = 1 ∧ FramesHandedOver .wspr s := by
  obtain ⟨capture, -, hstep⟩ := frame_completes
  obtain ⟨t, hrun, hdecoder, hcopies⟩ := copying_run capture
  have hframe := frameRun_reached CopiedBeforeNext (by decide +kernel)
  have ht := Reachable.of_execute copyingActions (hframe.next (a := .dsp) trivial hstep)
    (allAllowed_of_forall copyingActions_allowed _) hrun
  exact ⟨t, ht, hdecoder, hcopies,
    frames_handed_over_when_copied (Option.some_get exampleReceiver_starts).symm ht⟩

/-- A frame is lost when main begins the next one before the decoder has copied it: the flag is
cleared, and the decoder finds a frame without any samples. -/
theorem overtaken_frame_lost :
    ¬ ∀ s, Reachable (receiverStep .wspr plainLibm) anyStep exampleReceiver s →
      FramesHandedOver .wspr s := by
  intro h
  obtain ⟨capture, hflag, hstep⟩ := frame_completes
  obtain ⟨t, hrun, hlengths⟩ := overtaking_run hflag
  have hframe := frameRun_reached anyStep (allAllowed_anyStep _ _ _)
  have ht := Reachable.of_execute overtakingActions (hframe.next trivial hstep)
    (allAllowed_anyStep _ _ _) hrun
  obtain ⟨copy, hcopy, hlength⟩ := List.mem_map.mp (hlengths ▸ List.mem_singleton_self 0)
  have hwhole := ((h t ht).whole copy hcopy).1
  rw [hlength] at hwhole
  exact absurd hwhole (captureSampleTarget_pos .wspr).ne

end AirspyhfWsprd.Receiver
