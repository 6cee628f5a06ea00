import AirspyhfWsprd.Library.Transition
import AirspyhfWsprd.Receiver.Capture

/-!
The threads of the receiver (`airspyhf_wsprd.c`): the device's callback pushes blocks,
the DSP thread takes them into the frame, main begins frames and tunes between them,
and the decoder copies a finished frame and decodes it. A step is what a thread does
while it holds a mutex or the lock of the frame, and decoding takes any time.
-/

namespace AirspyhfWsprd.Receiver

open Library

variable {K : Type*}

/-- `DSP_QUEUE_SLOTS` -/
def dspQueueSlots : Nat := 32

/-- Where main stands: between two frames, waiting for a frame, behind its loop, or
behind `airspyhf_stop` and `sample_queue_stop`. -/
inductive MainPoint where
  | between
  | capturing
  | leaving
  | stopped
deriving DecidableEq

/-- Where `wsprDsp` stands. With a peeked slot it holds `dsp_mutex`. -/
inductive DspPoint (K : Type*) where
  | idle
  | awake
  | peeked (index : Nat) (slot : Block K)
  | processed (index : Nat) (slot : Block K) (frameComplete : Bool)
  | releasing (index : Nat) (slot : Block K)
  | exited

/-- Where `wsprDecoder` stands. Before the copy it has cleared `decode_flag`. -/
inductive DecoderPoint where
  | waiting
  | copying
  | decoding
  | exited
deriving DecidableEq

/-- The slot that the DSP thread has peeked and not released. -/
def DspPoint.slot : DspPoint K → Option (Nat × Block K)
  | .peeked index slot | .processed index slot _ | .releasing index slot => some (index, slot)
  | .idle | .awake | .exited => none

/-- A call of `initSampleStorage`. -/
structure InitCall where
  frameDialfreq : Nat
  frameStartUnix : Int
  frameDate : CString
  frameUttime : CString

/-- What the decoder copies of a frame. The blocks taken into the frame, the inputs fed to its
filter and what the queue has accepted since the frame began are history: the program does
not copy them. -/
structure FrameCopy (K : Type*) where
  samples : List (K × K)
  samplesLen : Nat
  deviceDroppedSamples : UInt64
  queueDroppedSamples : UInt64
  frameStartUnix : Int
  freq : Nat
  date : CString
  uttime : CString
  blocks : List (Block K)
  fed : List (Option (ReceivedSample K))
  accepted : List (List (ReceivedSample K))

/-- The shared state, where the threads stand, and what has happened: the calls of
`initSampleStorage`, the blocks accepted and those processed since the last of them, the
samples and losses in time since then, the frames finished and the copies taken. -/
structure ReceiverRun (K : Type*) where
  queue : SampleQueue (ReceivedSample K)
  capture : Capture K
  exitFlag : Bool
  decodeFlag : Bool
  dialfreq : Nat
  main : MainPoint
  dsp : DspPoint K
  decoder : DecoderPoint
  calls : List InitCall
  accepted : List (List (ReceivedSample K))
  handled : List (Block K)
  timeline : List (Option (ReceivedSample K))
  finished : List (List (K × K))
  copies : List (FrameCopy K)

inductive ReceiverAction (K : Type*) where
  | rxCallback (samples : List (K × K)) (droppedSamples : UInt64)
  | dsp
  | tune (frequency : Nat)
  | initSampleStorage (frameStartUnix : Int) (frameDate frameUttime : CString)
  | pollCapture
  | leaveLoop
  | stopQueue
  | decoder
  | decoderGivesUp
  | exit

section Steps

variable [Field K] (mode : ReceiverMode) (libm : Libm K)

/-- The receiver when its threads have been started, and nothing has happened yet. There is
none when the rate or the size of the blocks is refused. -/
def receiverRunStart (rate blockCapacity dialfreq : Nat) : Option (ReceiverRun K) := do
  let filters ← filtersInit mode libm rate
  let queue ← sampleQueueInit blockCapacity dspQueueSlots
  some {
    queue := queue
    capture := ⟨false, [], 0, 0, 0, 0, [], [], filters, [], []⟩
    exitFlag := false
    decodeFlag := false
    dialfreq := dialfreq
    main := .between
    dsp := .idle
    decoder := .waiting
    calls := []
    accepted := []
    handled := []
    timeline := []
    finished := []
    copies := []}

/-- The samples of a transfer as they enter the queue. -/
def received (s : ReceiverRun K) (samples : List (K × K)) : List (ReceivedSample K) :=
  samples.map fun sample => ⟨sample.1, sample.2, s.dialfreq, s.calls.length⟩

/-- The time that a transfer stands for: the device's losses, then its samples, or as many
losses where the queue does not take them. -/
def transferTime (accepted : Bool) (samples : List (ReceivedSample K)) (dropped : UInt64) :
    List (Option (ReceivedSample K)) :=
  List.replicate dropped.toNat none ++
    if accepted then samples.map some else List.replicate samples.length none

/-- `rx_callback`, as far as the queue: it ignores a transfer without samples. -/
def rxPush (queue : SampleQueue (ReceivedSample K)) (block : List (ReceivedSample K))
    (droppedSamples : UInt64) : Bool × SampleQueue (ReceivedSample K) :=
  if block.length = 0 then (false, queue) else sampleQueuePush queue block droppedSamples

/-- `rx_callback`: the samples of a transfer are pushed, and the history notes them with what
was lost. -/
def rxCallback (s : ReceiverRun K) (samples : List (K × K)) (droppedSamples : UInt64) :
    ReceiverRun K :=
  let block := received s samples
  let result := rxPush s.queue block droppedSamples
  {s with
    queue := result.2
    accepted := if result.1 then s.accepted ++ [block] else s.accepted
    timeline := s.timeline ++ transferTime result.1 block droppedSamples}

/-- A step of `wsprDsp`. The samples are read from the slot when they are processed. -/
def wsprDsp (s : ReceiverRun K) : Option (ReceiverRun K) :=
  match s.dsp with
  | .idle =>
      match sampleQueueWait s.queue with
      | none => none
      | some true => some {s with dsp := .awake}
      | some false => some {s with dsp := .exited}
  | .awake =>
      match sampleQueueTryPeek s.queue with
      | some slot => some {s with dsp := .peeked s.queue.tail slot}
      | none => some {s with dsp := .idle}
  | .peeked index slot =>
      let block := {slot with samples := (s.queue.slots index).samples}
      let (frameComplete, capture) := processSampleBlock mode libm s.capture block
      some {s with
        capture := capture
        handled := s.handled ++ [block]
        dsp := .processed index slot frameComplete}
  | .processed index slot frameComplete =>
      some {s with
        decodeFlag := s.decodeFlag || frameComplete
        finished := if frameComplete then s.finished ++ [s.capture.samples] else s.finished
        dsp := .releasing index slot}
  | .releasing _ _ =>
      some {s with
        queue := (sampleQueueRelease s.queue).2
        dsp := .idle}
  | .exited => none

/-- `initSampleStorage`, with the frequency of the receiver's options. The waiting blocks are
dropped, and the history of the frame begins anew. -/
def initSampleStorage (s : ReceiverRun K) (frameStartUnix : Int)
    (frameDate frameUttime : CString) : ReceiverRun K :=
  {s with
    queue := sampleQueueReset s.queue
    capture := s.capture.start mode s.dialfreq frameStartUnix frameDate frameUttime
    main := .capturing
    calls := s.calls ++ [⟨s.dialfreq, frameStartUnix, frameDate, frameUttime⟩]
    accepted := []
    handled := []
    timeline := []}

/-- The decoder's copy of the frame, with the pushes accepted since the frame began. -/
def Capture.copyFrame (capture : Capture K) (accepted : List (List (ReceivedSample K))) :
    FrameCopy K where
  samples := capture.samples
  samplesLen := capture.iqIndex
  deviceDroppedSamples := capture.deviceDroppedSamples
  queueDroppedSamples := capture.queueDroppedSamples
  frameStartUnix := capture.frameStartUnix
  freq := capture.frameDialfreq
  date := capture.frameDate
  uttime := capture.frameUttime
  blocks := capture.blocks
  fed := capture.fed
  accepted := accepted

/-- A step of `wsprDecoder`: it waits for the flag, copies the frame, and decodes the copy.
Main can run between any two of these. -/
def wsprDecoder (s : ReceiverRun K) : Option (ReceiverRun K) :=
  match s.decoder with
  | .waiting =>
      if s.exitFlag then some {s with decodeFlag := false, decoder := .exited}
      else if s.decodeFlag then some {s with decodeFlag := false, decoder := .copying}
      else none
  | .copying =>
      some {s with
        copies := s.copies ++ [s.capture.copyFrame s.accepted]
        decoder := .decoding}
  | .decoding => some {s with decoder := .waiting}
  | .exited => none

/-- One step. Main takes `dsp_mutex` for `initSampleStorage` and `is_capture_active`, and
the device is stopped before the queue. -/
def receiverStep (s : ReceiverRun K) : ReceiverAction K → Option (ReceiverRun K)
  | .rxCallback samples droppedSamples =>
      if s.main = .stopped then none else some (rxCallback s samples droppedSamples)
  | .dsp => wsprDsp mode libm s
  | .tune frequency => if s.main = .between then some {s with dialfreq := frequency} else none
  | .initSampleStorage frameStartUnix frameDate frameUttime =>
      if s.main = .between ∧ s.dsp.slot.isNone then
        some (initSampleStorage mode s frameStartUnix frameDate frameUttime)
      else none
  | .pollCapture =>
      if s.main = .capturing ∧ s.dsp.slot.isNone then
        some (if s.capture.captureFlag then s else {s with main := .between})
      else none
  | .leaveLoop =>
      if s.exitFlag ∧ (s.main = .between ∨ s.main = .capturing) then
        some {s with main := .leaving}
      else none
  | .stopQueue =>
      if s.main = .leaving then some {s with main := .stopped, queue := sampleQueueStop s.queue}
      else none
  | .decoder => wsprDecoder s
  | .decoderGivesUp =>
      if s.exitFlag ∧ s.decoder = .copying then some {s with decoder := .exited} else none
  | .exit => some {s with exitFlag := true}

end Steps

section Start

variable [Field K] {mode : ReceiverMode} {libm : Libm K}

/-- When the set-up succeeds, the receiver has its filter and an empty queue, and its threads
stand where they begin. -/
theorem receiverRunStart_eq {rate blockCapacity dialfreq : Nat} {start : ReceiverRun K}
    (hstart : receiverRunStart mode libm rate blockCapacity dialfreq = some start) :
    ∃ filters queue, filtersInit mode libm rate = some filters ∧
      sampleQueueInit blockCapacity dspQueueSlots = some queue ∧
      start = {
        queue := queue
        capture := ⟨false, [], 0, 0, 0, 0, [], [], filters, [], []⟩
        exitFlag := false
        decodeFlag := false
        dialfreq := dialfreq
        main := .between
        dsp := .idle
        decoder := .waiting
        calls := []
        accepted := []
        handled := []
        timeline := []
        finished := []
        copies := []} := by
  obtain ⟨filters, hfilters, hrest⟩ := Option.bind_eq_some_iff.mp hstart
  obtain ⟨queue, hqueue, hrest⟩ := Option.bind_eq_some_iff.mp hrest
  exact ⟨filters, queue, hfilters, hqueue, (Option.some.inj hrest).symm⟩

end Start

section Effects

variable [Field K] {mode : ReceiverMode} {libm : Libm K}

inductive ReceiverEffect (mode : ReceiverMode) (libm : Libm K) (s : ReceiverRun K) :
    ReceiverAction K → ReceiverRun K → Prop where
  | callback {samples : List (K × K)} {droppedSamples : UInt64} (hmain : s.main ≠ .stopped) :
      ReceiverEffect mode libm s (.rxCallback samples droppedSamples)
        (rxCallback s samples droppedSamples)
  | dspWakes (hdsp : s.dsp = .idle) : ReceiverEffect mode libm s .dsp {s with dsp := .awake}
  | dspExits (hdsp : s.dsp = .idle) : ReceiverEffect mode libm s .dsp {s with dsp := .exited}
  | dspPeeks (hdsp : s.dsp = .awake) (hcount : s.queue.count ≠ 0) :
      ReceiverEffect mode libm s .dsp
        {s with dsp := .peeked s.queue.tail (s.queue.slots s.queue.tail)}
  | dspFindsNothing (hdsp : s.dsp = .awake) :
      ReceiverEffect mode libm s .dsp {s with dsp := .idle}
  | dspProcesses {index : Nat} {slot : Block K} (hdsp : s.dsp = .peeked index slot) :
      ReceiverEffect mode libm s .dsp {s with
        capture := (processSampleBlock mode libm s.capture
          {slot with samples := (s.queue.slots index).samples}).2
        handled := s.handled ++ [{slot with samples := (s.queue.slots index).samples}]
        dsp := .processed index slot (processSampleBlock mode libm s.capture
          {slot with samples := (s.queue.slots index).samples}).1}
  | dspSignals {index : Nat} {slot : Block K} {frameComplete : Bool}
      (hdsp : s.dsp = .processed index slot frameComplete) :
      ReceiverEffect mode libm s .dsp {s with
        decodeFlag := s.decodeFlag || frameComplete
        finished := if frameComplete then s.finished ++ [s.capture.samples] else s.finished
        dsp := .releasing index slot}
  | dspReleases {index : Nat} {slot : Block K} (hdsp : s.dsp = .releasing index slot) :
      ReceiverEffect mode libm s .dsp {s with
        queue := (sampleQueueRelease s.queue).2
        dsp := .idle}
  | tunes {frequency : Nat} (hmain : s.main = .between) :
      ReceiverEffect mode libm s (.tune frequency) {s with dialfreq := frequency}
  | inits {frameStartUnix : Int} {frameDate frameUttime : CString} (hmain : s.main = .between)
      (hdsp : s.dsp.slot = none) :
      ReceiverEffect mode libm s (.initSampleStorage frameStartUnix frameDate frameUttime)
        (initSampleStorage mode s frameStartUnix frameDate frameUttime)
  | seesCapture (hmain : s.main = .capturing) : ReceiverEffect mode libm s .pollCapture s
  | seesEnd (hmain : s.main = .capturing) (hflag : s.capture.captureFlag = false) :
      ReceiverEffect mode libm s .pollCapture {s with main := .between}
  | leaves (hmain : s.main = .between ∨ s.main = .capturing) :
      ReceiverEffect mode libm s .leaveLoop {s with main := .leaving}
  | stops (hmain : s.main = .leaving) :
      ReceiverEffect mode libm s .stopQueue
        {s with main := .stopped, queue := sampleQueueStop s.queue}
  | decoderExits (hdecoder : s.decoder = .waiting) :
      ReceiverEffect mode libm s .decoder {s with decodeFlag := false, decoder := .exited}
  | decoderWakes (hdecoder : s.decoder = .waiting) (hflag : s.decodeFlag = true) :
      ReceiverEffect mode libm s .decoder {s with decodeFlag := false, decoder := .copying}
  | decoderCopies (hdecoder : s.decoder = .copying) :
      ReceiverEffect mode libm s .decoder
        {s with copies := s.copies ++ [s.capture.copyFrame s.accepted], decoder := .decoding}
  | decoderFinishes (hdecoder : s.decoder = .decoding) :
      ReceiverEffect mode libm s .decoder {s with decoder := .waiting}
  | decoderGivesUp (hdecoder : s.decoder = .copying) :
      ReceiverEffect mode libm s .decoderGivesUp {s with decoder := .exited}
  | exits : ReceiverEffect mode libm s .exit {s with exitFlag := true}

omit [Field K] in
theorem rxPush_effect {queue : SampleQueue (ReceivedSample K)} (hwf : queue.WellFormed)
    (block : List (ReceivedSample K)) (droppedSamples : UInt64) :
    PushEffect queue block droppedSamples (rxPush queue block droppedSamples) := by
  rw [rxPush]
  split
  · rename_i hempty
    exact .refused (Or.inl (List.eq_nil_of_length_eq_zero hempty))
  · exact sampleQueuePush_effect hwf block droppedSamples

/-- The steps of the DSP thread, one case for each point where it can stand. -/
theorem wsprDsp_effect {s t : ReceiverRun K} (hstep : wsprDsp mode libm s = some t) :
    ReceiverEffect mode libm s .dsp t := by
  rw [wsprDsp] at hstep
  split at hstep
  · rename_i hdsp
    split at hstep
    · cases hstep
    · obtain rfl := Option.some.inj hstep
      exact .dspWakes hdsp
    · obtain rfl := Option.some.inj hstep
      exact .dspExits hdsp
  · rename_i hdsp
    split at hstep
    · rename_i slot hpeek
      obtain rfl := Option.some.inj hstep
      obtain ⟨hcount, rfl⟩ := sampleQueueTryPeek_some hpeek
      exact .dspPeeks hdsp hcount
    · obtain rfl := Option.some.inj hstep
      exact .dspFindsNothing hdsp
  · rename_i hdsp
    obtain rfl := Option.some.inj hstep
    exact .dspProcesses hdsp
  · rename_i hdsp
    obtain rfl := Option.some.inj hstep
    exact .dspSignals hdsp
  · rename_i hdsp
    obtain rfl := Option.some.inj hstep
    exact .dspReleases hdsp
  · cases hstep

/-- The steps of the decoder. It leaves its wait with a cleared `decode_flag`, to copy a frame
or to end. -/
theorem wsprDecoder_effect {s t : ReceiverRun K} (hstep : wsprDecoder s = some t) :
    ReceiverEffect mode libm s .decoder t := by
  rw [wsprDecoder] at hstep
  split at hstep
  · rename_i hdecoder
    split at hstep
    · obtain rfl := Option.some.inj hstep
      exact .decoderExits hdecoder
    · split at hstep
      · rename_i hflag
        obtain rfl := Option.some.inj hstep
        exact .decoderWakes hdecoder hflag
      · cases hstep
  · rename_i hdecoder
    obtain rfl := Option.some.inj hstep
    exact .decoderCopies hdecoder
  · rename_i hdecoder
    obtain rfl := Option.some.inj hstep
    exact .decoderFinishes hdecoder
  · cases hstep

/-- Every step is one of the cases of `ReceiverEffect`. What is proved of all steps is proved
case by case from here on, without unfolding a thread again. -/
theorem receiverStep_effect {s t : ReceiverRun K} {a : ReceiverAction K}
    (hstep : receiverStep mode libm s a = some t) : ReceiverEffect mode libm s a t := by
  cases a with
  | dsp => exact wsprDsp_effect hstep
  | decoder => exact wsprDecoder_effect hstep
  | rxCallback samples droppedSamples =>
      obtain ⟨hmain, hsome⟩ := Option.ite_none_left_eq_some.mp hstep
      obtain rfl := Option.some.inj hsome
      exact .callback hmain
  | exit =>
      obtain rfl := Option.some.inj hstep
      exact .exits
  | tune frequency =>
      obtain ⟨hmain, hsome⟩ := Option.ite_none_right_eq_some.mp hstep
      obtain rfl := Option.some.inj hsome
      exact .tunes hmain
  | initSampleStorage frameStartUnix frameDate frameUttime =>
      obtain ⟨⟨hmain, hdsp⟩, hsome⟩ := Option.ite_none_right_eq_some.mp hstep
      obtain rfl := Option.some.inj hsome
      exact .inits hmain (Option.isNone_iff_eq_none.mp hdsp)
  | pollCapture =>
      obtain ⟨⟨hmain, -⟩, hsome⟩ := Option.ite_none_right_eq_some.mp hstep
      obtain rfl := Option.some.inj hsome
      split
      · exact .seesCapture hmain
      · rename_i hflag
        exact .seesEnd hmain (Bool.eq_false_iff.mpr hflag)
  | leaveLoop =>
      obtain ⟨⟨-, hmain⟩, hsome⟩ := Option.ite_none_right_eq_some.mp hstep
      obtain rfl := Option.some.inj hsome
      exact .leaves hmain
  | stopQueue =>
      obtain ⟨hmain, hsome⟩ := Option.ite_none_right_eq_some.mp hstep
      obtain rfl := Option.some.inj hsome
      exact .stops hmain
  | decoderGivesUp =>
      obtain ⟨⟨-, hdecoder⟩, hsome⟩ := Option.ite_none_right_eq_some.mp hstep
      obtain rfl := Option.some.inj hsome
      exact .decoderGivesUp hdecoder

/-- The step of the DSP thread that processes a block. -/
theorem dsp_processes {index : Nat} {slot : Block K} (hdsp : s.dsp = .peeked index slot)
    (hslot : ({slot with samples := (s.queue.slots index).samples} : Block K) = slot)
    {frameComplete : Bool} {next : Capture K}
    (hresult : processSampleBlock mode libm s.capture slot = (frameComplete, next)) :
    receiverStep mode libm s .dsp = some {s with
      capture := next
      handled := s.handled ++ [slot]
      dsp := .processed index slot frameComplete} := by
  rw [receiverStep, wsprDsp, hdsp]
  dsimp only
  rw [hslot, hresult]

end Effects

end AirspyhfWsprd.Receiver
