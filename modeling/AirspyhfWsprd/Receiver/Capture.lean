import AirspyhfWsprd.Library.CText
import AirspyhfWsprd.Receiver.Decimator
import AirspyhfWsprd.Receiver.Resampler
import AirspyhfWsprd.Receiver.SampleQueue

/-!
The capture of a frame: blocks from the input queue, with zeros for what was lost
before them, go through the filter of the receiver's mode until the frame has all
its samples.
-/

namespace AirspyhfWsprd.Receiver

open Library

variable {K : Type*}

/-- `enum receiver_mode` -/
inductive ReceiverMode where
  | wspr
  | ft8
deriving DecidableEq

/-- `WSPR_CAPTURE_SAMPLES` -/
def wsprCaptureSamples : Nat := 116 * wsprOutputRate

/-- `FT8_CAPTURE_SAMPLES` -/
def ft8CaptureSamples : Nat := 175200

/-- `capture_sample_target` -/
def captureSampleTarget : ReceiverMode → Nat
  | .ft8 => ft8CaptureSamples
  | .wspr => wsprCaptureSamples

/-- A sample as it arrives. The dial frequency that the receiver was tuned to then, and
the number of frames begun before, are history: the program does not store them. -/
structure ReceivedSample (K : Type*) where
  re : K
  im : K
  frequency : Nat
  session : Nat

/-- A block of samples in the input queue. -/
abbrev Block (K : Type*) := SampleQueueSlot (ReceivedSample K)

/-- The program has both and uses the one of its mode. -/
structure Filters (K : Type*) where
  decimator : WsprDecimator K
  ft8Resampler : Ft8Resampler K

section Filters

variable [Field K] (mode : ReceiverMode) (libm : Libm K)

/-- The set-up for an input rate; the other filter stays zero. -/
def filtersInit (rate : Nat) : Option (Filters K) :=
  match mode with
  | .ft8 => (ft8ResamplerInit libm rate).map fun resampler =>
      ⟨⟨0, 0, .zero, .zero⟩, resampler⟩
  | .wspr => (wsprDecimatorInit rate).map fun decimator =>
      ⟨decimator, ⟨0, 0, 0, ⟨0, 0, 0, 0, 0⟩, fun _ => 0, fun _ => 0⟩⟩

/-- The call of the filter in `process_sample_block`: an input gives an output or none. An
FT8 output has no Q part. -/
def Filters.process (filters : Filters K) (input : Option (ReceivedSample K)) :
    Filters K × Option (K × K) :=
  let (inputI, inputQ) :=
    match input with
    | some sample => (sample.re, sample.im)
    | none => (0, 0)
  match mode with
  | .ft8 =>
      let (resampler, output) := ft8ResamplerProcess libm filters.ft8Resampler inputI inputQ
      ({filters with ft8Resampler := resampler}, output.map fun output => (output, 0))
  | .wspr =>
      let (decimator, output) := wsprDecimatorProcess filters.decimator inputI inputQ
      ({filters with decimator := decimator}, output)

def Filters.reset (filters : Filters K) : Filters K :=
  match mode with
  | .ft8 => {filters with ft8Resampler := ft8ResamplerReset filters.ft8Resampler}
  | .wspr => {filters with decimator := wsprDecimatorReset filters.decimator}

/-- The number of inputs for one output. -/
def Filters.factor (filters : Filters K) : Nat :=
  match mode with
  | .ft8 => filters.ft8Resampler.factor
  | .wspr => filters.decimator.factor

def Filters.phase (filters : Filters K) : Nat :=
  match mode with
  | .ft8 => filters.ft8Resampler.phase
  | .wspr => filters.decimator.phase

/-- The filters after a list of inputs. -/
def Filters.run (filters : Filters K) : List (Option (ReceivedSample K)) → Filters K
  | [] => filters
  | input :: rest => Filters.run (filters.process mode libm input).1 rest

/-- What a list of inputs gives. -/
def Filters.outputs (filters : Filters K) : List (Option (ReceivedSample K)) → List (K × K)
  | [] => []
  | input :: rest =>
      (filters.process mode libm input).2.toList ++
        Filters.outputs (filters.process mode libm input).1 rest

end Filters

/-- The fields of `struct receiver_state` that describe a frame, and the filters. The
samples are the first `iqIndex` of `iSamples` and `qSamples`. The blocks taken into the
frame and the inputs fed to the filter are history. -/
structure Capture (K : Type*) where
  captureFlag : Bool
  samples : List (K × K)
  deviceDroppedSamples : UInt64
  queueDroppedSamples : UInt64
  frameDialfreq : Nat
  frameStartUnix : Int
  frameDate : CString
  frameUttime : CString
  filters : Filters K
  blocks : List (Block K)
  fed : List (Option (ReceivedSample K))

def Capture.iqIndex (capture : Capture K) : Nat := capture.samples.length

/-- The inputs of a block in the order of `input_index`: nothing for a missing sample. -/
def blockInputs (block : Block K) : List (Option (ReceivedSample K)) :=
  let missingSamples := block.deviceDroppedSamples + block.queueDroppedSamples
  let inputCount := missingSamples + UInt64.ofNat block.sampleCount
  (List.range inputCount.toNat).map fun index =>
    if index ≥ missingSamples.toNat then block.samples[index - missingSamples.toNat]? else none

section Capture

variable [Field K] (mode : ReceiverMode) (libm : Libm K)

/-- What the loop of `process_sample_block` does with an output, and whether it ends. -/
def Capture.store (capture : Capture K) (output : K × K) : Bool × Capture K :=
  let samples :=
    if capture.iqIndex < captureSampleTarget mode then capture.samples ++ [output]
    else capture.samples
  if samples.length ≥ captureSampleTarget mode then
    (true, {capture with samples := samples, captureFlag := false})
  else (false, {capture with samples := samples})

/-- One turn of the loop of `process_sample_block`, and whether the loop ends. -/
def Capture.feed (capture : Capture K) (input : Option (ReceivedSample K)) :
    Bool × Capture K :=
  let (filters, output) := capture.filters.process mode libm input
  let capture := {capture with filters := filters, fed := capture.fed ++ [input]}
  match output with
  | none => (false, capture)
  | some output => capture.store mode output

def Capture.feedAll (capture : Capture K) : List (Option (ReceivedSample K)) → Bool × Capture K
  | [] => (false, capture)
  | input :: rest =>
      match capture.feed mode libm input with
      | (true, capture) => (true, capture)
      | (false, capture) => Capture.feedAll capture rest

/-- The counts of `process_sample_block` before its loop. -/
def Capture.takeBlock (capture : Capture K) (block : Block K) : Capture K :=
  {capture with
    deviceDroppedSamples := capture.deviceDroppedSamples + block.deviceDroppedSamples
    queueDroppedSamples := capture.queueDroppedSamples + block.queueDroppedSamples
    blocks := capture.blocks ++ [block]}

/-- `process_sample_block` up to the point where it tells the decoder: the value is
`frame_complete`. -/
def processSampleBlock (capture : Capture K) (block : Block K) : Bool × Capture K :=
  if !capture.captureFlag then (false, capture)
  else (capture.takeBlock block).feedAll mode libm (blockInputs block)

/-- `initSampleStorage` but for the queue: an empty frame with its labels, and filters that
have forgotten the frame before. `blocks` and `fed` are history, which begins anew. -/
def Capture.start (capture : Capture K) (frameDialfreq : Nat) (frameStartUnix : Int)
    (frameDate frameUttime : CString) : Capture K where
  captureFlag := true
  samples := []
  deviceDroppedSamples := 0
  queueDroppedSamples := 0
  frameDialfreq := frameDialfreq
  frameStartUnix := frameStartUnix
  frameDate := copyText 7 frameDate
  frameUttime := copyText 5 frameUttime
  filters := capture.filters.reset mode
  blocks := []
  fed := []

end Capture

section FilterLemmas

variable [Field K] {mode : ReceiverMode} {libm : Libm K} {filters : Filters K}

/-- A filter that could be set up takes at least one input for an output. -/
theorem filtersInit_factor {rate : Nat} {filters : Filters K}
    (h : filtersInit mode libm rate = some filters) : 0 < filters.factor mode := by
  cases mode with
  | ft8 =>
      obtain ⟨resampler, hresampler, rfl⟩ := Option.map_eq_some_iff.mp h
      obtain ⟨hrate, hsome⟩ := Option.ite_none_left_eq_some.mp hresampler
      obtain rfl := Option.some.inj hsome
      rw [not_or] at hrate
      exact Nat.div_pos (Nat.le_of_not_lt hrate.1) (by decide)
  | wspr =>
      obtain ⟨decimator, hdecimator, rfl⟩ := Option.map_eq_some_iff.mp h
      obtain ⟨hrate, hsome⟩ := Option.ite_none_left_eq_some.mp hdecimator
      obtain rfl := Option.some.inj hsome
      rw [not_or, Decidable.not_not] at hrate
      have hdvd := Nat.dvd_of_mod_eq_zero hrate.2
      exact Nat.div_pos (Nat.le_of_dvd (Nat.pos_of_ne_zero hrate.1) hdvd) (by decide)

theorem wsprDecimatorReset_process (state : WsprDecimator K) (inputI inputQ : K) :
    wsprDecimatorReset (wsprDecimatorProcess state inputI inputQ).1 = wsprDecimatorReset state := by
  rw [wsprDecimatorProcess]
  dsimp only
  split
  · rfl
  · split <;> rfl

theorem Filters.reset_process (filters : Filters K) (input : Option (ReceivedSample K)) :
    (filters.process mode libm input).1.reset mode = filters.reset mode := by
  cases mode with
  | ft8 => simp only [process, reset, ft8ResamplerReset_process]
  | wspr => simp only [process, reset, wsprDecimatorReset_process]

/-- The phase counts inputs, and an output comes when it is full. -/
theorem Filters.process_phase (libm : Libm K) (hpos : 0 < filters.factor mode)
    (input : Option (ReceivedSample K)) :
    (filters.process mode libm input).1.factor mode = filters.factor mode ∧
      if filters.phase mode + 1 < filters.factor mode then
        (filters.process mode libm input).1.phase mode = filters.phase mode + 1 ∧
          (filters.process mode libm input).2 = none
      else (filters.process mode libm input).1.phase mode = 0 ∧
        ∃ pair, (filters.process mode libm input).2 = some pair := by
  cases mode with
  | ft8 =>
      have hfactor : filters.ft8Resampler.factor ≠ 0 := Nat.pos_iff_ne_zero.mp hpos
      simp only [process, factor, phase, ft8ResamplerProcess, if_neg hfactor]
      split
      · exact ⟨rfl, rfl, rfl⟩
      · exact ⟨rfl, rfl, _, rfl⟩
  | wspr =>
      have hfactor : filters.decimator.factor ≠ 0 := Nat.pos_iff_ne_zero.mp hpos
      simp only [process, factor, phase, wsprDecimatorProcess, if_neg hfactor]
      split
      · exact ⟨rfl, rfl, rfl⟩
      · exact ⟨rfl, rfl, _, rfl⟩

theorem Filters.run_concat (filters : Filters K) (inputs : List (Option (ReceivedSample K)))
    (input : Option (ReceivedSample K)) :
    filters.run mode libm (inputs ++ [input]) =
      ((filters.run mode libm inputs).process mode libm input).1 := by
  induction inputs generalizing filters with
  | nil => rfl
  | cons first rest ih => exact ih _

theorem Filters.outputs_concat (filters : Filters K) (inputs : List (Option (ReceivedSample K)))
    (input : Option (ReceivedSample K)) :
    filters.outputs mode libm (inputs ++ [input]) =
      filters.outputs mode libm inputs ++
        ((filters.run mode libm inputs).process mode libm input).2.toList := by
  induction inputs generalizing filters with
  | nil => simp only [List.nil_append, outputs, run, List.append_nil]
  | cons first rest ih => rw [List.cons_append, outputs, outputs, ih, List.append_assoc, run]

/-- From a full phase on, the inputs are counted in phase and outputs. -/
theorem Filters.run_counts (libm : Libm K) {start : Filters K} (hpos : 0 < start.factor mode)
    (hstart : start.phase mode = 0) (inputs : List (Option (ReceivedSample K))) :
    (start.run mode libm inputs).factor mode = start.factor mode ∧
      (start.run mode libm inputs).phase mode = inputs.length % start.factor mode ∧
      (start.outputs mode libm inputs).length = inputs.length / start.factor mode := by
  induction inputs using List.reverseRecOn with
  | nil => exact ⟨rfl, by rw [run, hstart, List.length_nil, Nat.zero_mod],
      (Nat.zero_div _).symm⟩
  | append_singleton inputs input ih =>
      obtain ⟨hfactor, hphase, hlength⟩ := ih
      have hstep := process_phase libm (hfactor ▸ hpos) input
      rw [hfactor, hphase] at hstep
      rw [run_concat, outputs_concat, List.length_append, List.length_append, hlength,
        List.length_singleton]
      refine ⟨hstep.1, ?_⟩
      rcases Nat.lt_or_ge (inputs.length % start.factor mode + 1) (start.factor mode) with
        hcounts | hwraps
      · obtain ⟨hdiv, hmod⟩ := phase_counts hcounts
        obtain ⟨-, hstep⟩ := hstep
        rw [if_pos hcounts] at hstep
        rw [hstep.1, hstep.2, hdiv, hmod]
        exact ⟨rfl, rfl⟩
      · obtain ⟨hdiv, hmod⟩ := phase_wraps hpos hwraps.not_gt
        obtain ⟨-, hstep⟩ := hstep
        rw [if_neg hwraps.not_gt] at hstep
        obtain ⟨hphase, pair, hpair⟩ := hstep
        rw [hphase, hpair, hdiv, hmod]
        exact ⟨rfl, rfl⟩

/-- When an input completes an output, all inputs have gone into outputs. -/
theorem fed_length {start : Filters K} (hpos : 0 < start.factor mode)
    (hstart : start.phase mode = 0) {inputs : List (Option (ReceivedSample K))}
    {input : Option (ReceivedSample K)} {target : Nat}
    (hbefore : (start.outputs mode libm inputs).length < target)
    (hafter : (start.outputs mode libm (inputs ++ [input])).length = target) :
    (inputs ++ [input]).length = target * start.factor mode := by
  have hcounts := (Filters.run_counts libm hpos hstart inputs).2.2
  have hnext := (Filters.run_counts libm hpos hstart (inputs ++ [input])).2.2
  have hlength : (inputs ++ [input]).length = inputs.length + 1 := List.length_append
  rw [hafter, hlength] at hnext
  rw [hcounts] at hbefore
  rw [hlength]
  rcases Nat.lt_or_ge (inputs.length % start.factor mode + 1) (start.factor mode) with
    hmore | hwraps
  · rw [(phase_counts hmore).1] at hnext
    exact absurd hnext (Nat.ne_of_gt hbefore)
  · have hmod := Nat.div_add_mod (inputs.length + 1) (start.factor mode)
    rw [(phase_wraps hpos hwraps.not_gt).2, ← hnext, Nat.add_zero, Nat.mul_comm] at hmod
    exact hmod.symm

end FilterLemmas

/-- An output is stored behind the ones before it. It either leaves the frame short of samples
or is the last one, and then the capture ends. -/
theorem store_cases {mode : ReceiverMode} {capture : Capture K}
    (hshort : capture.iqIndex < captureSampleTarget mode)
    (output : K × K) :
    (capture.iqIndex + 1 < captureSampleTarget mode ∧ capture.store mode output =
        (false, {capture with samples := capture.samples ++ [output]})) ∨
      capture.iqIndex + 1 = captureSampleTarget mode ∧ capture.store mode output =
        (true, {capture with samples := capture.samples ++ [output], captureFlag := false}) := by
  have hlength : (capture.samples ++ [output]).length = capture.iqIndex + 1 := List.length_append
  rw [Capture.store, if_pos hshort, hlength]
  rcases Nat.lt_or_ge (capture.iqIndex + 1) (captureSampleTarget mode) with hmore | hreached
  · rw [if_neg hmore.not_ge]
    exact Or.inl ⟨hmore, rfl⟩
  · rw [if_pos hreached]
    exact Or.inr ⟨Nat.le_antisymm hshort hreached, rfl⟩

section Frame

variable [Field K] {mode : ReceiverMode} {libm : Libm K} {start : Filters K} {capture : Capture K}

/-- The capture after these inputs since the reset. -/
def Capture.fedWith (mode : ReceiverMode) (libm : Libm K) (start : Filters K)
    (capture : Capture K) (inputs : List (Option (ReceivedSample K))) : Capture K :=
  {capture with
    filters := start.run mode libm inputs
    samples := start.outputs mode libm inputs
    fed := inputs}

/-- A frame that has all its samples has been fed a whole number of inputs for each. -/
def FrameFull (mode : ReceiverMode) (start : Filters K) (capture : Capture K) : Prop :=
  capture.iqIndex = captureSampleTarget mode ∧
    capture.fed.length = captureSampleTarget mode * start.factor mode

/-- What a list of inputs does to a frame: all of them are fed and the frame is still
short of samples, or some of them complete it. -/
inductive FeedEffect (mode : ReceiverMode) (libm : Libm K) (start : Filters K)
    (capture : Capture K) (inputs : List (Option (ReceivedSample K))) :
    Bool × Capture K → Prop where
  | more (hshort : (capture.fedWith mode libm start (capture.fed ++ inputs)).iqIndex <
        captureSampleTarget mode) :
      FeedEffect mode libm start capture inputs
        (false, capture.fedWith mode libm start (capture.fed ++ inputs))
  | complete (taken : List (Option (ReceivedSample K))) (htaken : taken <+: inputs)
      (hfull : FrameFull mode start (capture.fedWith mode libm start (capture.fed ++ taken))) :
      FeedEffect mode libm start capture inputs
        (true, {capture.fedWith mode libm start (capture.fed ++ taken) with captureFlag := false})

/-- The capture has been fed its inputs since the reset, and is short of samples. -/
structure Feeding (mode : ReceiverMode) (libm : Libm K) (start : Filters K)
    (capture : Capture K) : Prop where
  filters : capture.filters = start.run mode libm capture.fed
  samples : capture.samples = start.outputs mode libm capture.fed
  short : capture.iqIndex < captureSampleTarget mode

/-- One input goes through the filter, and the output that it may give is stored. The samples
are then what the reset filter gives for all the inputs fed, this one included. -/
theorem feed_effect (hpos : 0 < start.factor mode) (hstart : start.phase mode = 0)
    (h : Feeding mode libm start capture) (input : Option (ReceivedSample K)) :
    FeedEffect mode libm start capture [input] (capture.feed mode libm input) := by
  have hsamples := h.samples
  rw [Capture.feed, h.filters]
  rcases hprocess : (start.run mode libm capture.fed).process mode libm input with
    ⟨filters, _ | output⟩
  · have hfed : {capture with filters := filters, fed := capture.fed ++ [input]} =
        capture.fedWith mode libm start (capture.fed ++ [input]) := by
      rw [Capture.fedWith, Filters.run_concat, Filters.outputs_concat, hprocess, hsamples]
      simp only [Option.toList_none, List.append_nil]
    have hmore : (capture.fedWith mode libm start (capture.fed ++ [input])).iqIndex <
        captureSampleTarget mode := by
      rw [← hfed]
      exact h.short
    dsimp only
    rw [hfed]
    exact .more hmore
  · have houtputs : start.outputs mode libm (capture.fed ++ [input]) =
        capture.samples ++ [output] := by
      rw [Filters.outputs_concat, hprocess, hsamples, Option.toList_some]
    have hrun : start.run mode libm (capture.fed ++ [input]) = filters := by
      rw [Filters.run_concat, hprocess]
    have hlength : (start.outputs mode libm (capture.fed ++ [input])).length =
        capture.iqIndex + 1 := by
      rw [houtputs, List.length_append]
      rfl
    have hcapture : ({capture with
        filters := start.run mode libm (capture.fed ++ [input])
        fed := capture.fed ++ [input]} : Capture K).iqIndex < captureSampleTarget mode := h.short
    dsimp only
    rw [← hrun]
    rcases store_cases hcapture output with ⟨hmore, hstore⟩ | ⟨hreached, hstore⟩
    · dsimp only at hstore
      rw [hstore, ← houtputs]
      exact .more (lt_of_eq_of_lt hlength hmore)
    · dsimp only at hstore
      rw [hstore, ← houtputs]
      have htarget := hlength.trans hreached
      exact .complete [input] List.prefix_rfl
        ⟨htarget, fed_length hpos hstart (hsamples ▸ h.short) htarget⟩

/-- Feeding an input that does not complete the frame and then the rest is feeding the whole
list. -/
theorem FeedEffect.cons {input : Option (ReceivedSample K)}
    {rest : List (Option (ReceivedSample K))} {result : Bool × Capture K}
    (h : FeedEffect mode libm start (capture.fedWith mode libm start (capture.fed ++ [input])) rest
      result) : FeedEffect mode libm start capture (input :: rest) result := by
  have hfed (more : List (Option (ReceivedSample K))) :
      (capture.fedWith mode libm start (capture.fed ++ [input])).fed ++ more =
        capture.fed ++ input :: more := List.append_assoc ..
  cases h with
  | more hshort =>
      rw [hfed] at hshort ⊢
      exact .more hshort
  | complete taken htaken hfull =>
      rw [hfed] at hfull ⊢
      exact .complete (input :: taken) (List.cons_prefix_cons.mpr ⟨rfl, htaken⟩) hfull

/-- The loop over the inputs of a block: either all are fed and the frame is still short of
samples, or it ends at the input that completes the frame and the others are not fed. -/
theorem feedAll_effect (hpos : 0 < start.factor mode) (hstart : start.phase mode = 0)
    (inputs : List (Option (ReceivedSample K))) {capture : Capture K}
    (h : Feeding mode libm start capture) :
    FeedEffect mode libm start capture inputs (capture.feedAll mode libm inputs) := by
  induction inputs generalizing capture with
  | nil =>
      have hfed : capture.fedWith mode libm start (capture.fed ++ []) = capture := by
        rw [List.append_nil, Capture.fedWith, ← h.filters, ← h.samples]
      have heffect : FeedEffect mode libm start capture []
          (false, capture.fedWith mode libm start (capture.fed ++ [])) :=
        .more (hfed.symm ▸ h.short)
      rwa [hfed] at heffect
  | cons input rest ih =>
      have heffect := feed_effect hpos hstart h input
      rw [Capture.feedAll]
      rcases hfeed : capture.feed mode libm input with ⟨complete, next⟩
      rw [hfeed] at heffect
      cases heffect with
      | more hshort => exact .cons (ih ⟨rfl, rfl, hshort⟩)
      | complete taken htaken hfull =>
          exact .complete taken (htaken.trans (List.cons_prefix_cons.mpr ⟨rfl, List.nil_prefix⟩))
            hfull

/-- The sum of a drop counter over the blocks, as `uint64_t` adds it. -/
def dropTotal (dropped : Block K → UInt64) (blocks : List (Block K)) : UInt64 :=
  blocks.foldl (fun total block => total + dropped block) 0

/-- A capture since `initSampleStorage`: its samples are what the filters make of the inputs
they were fed, and these are the first of those that its blocks stand for, zeros for the losses
included. -/
structure CaptureInv (mode : ReceiverMode) (libm : Libm K) (start : Filters K)
    (capture : Capture K) : Prop where
  filters : capture.filters = start.run mode libm capture.fed
  samples : capture.samples = start.outputs mode libm capture.fed
  device : capture.deviceDroppedSamples = dropTotal (·.deviceDroppedSamples) capture.blocks
  queue : capture.queueDroppedSamples = dropTotal (·.queueDroppedSamples) capture.blocks
  fed : capture.fed <+: capture.blocks.flatMap blockInputs
  running : capture.captureFlag = true → capture.iqIndex < captureSampleTarget mode ∧
    capture.fed = capture.blocks.flatMap blockInputs
  full : capture.captureFlag = false → FrameFull mode start capture

/-- What a block does to a frame that is being captured or is full already: all a caller needs
to know of `process_sample_block`. -/
structure BlockEffect (mode : ReceiverMode) (libm : Libm K) (start : Filters K)
    (capture : Capture K) (block : Block K) (result : Bool × Capture K) : Prop where
  inv : CaptureInv mode libm start result.2
  flag : result.2.captureFlag = (capture.captureFlag && !result.1)
  complete : result.1 = true → capture.captureFlag = true
  blocks : result.2.blocks =
    if capture.captureFlag then capture.blocks ++ [block] else capture.blocks
  frameDialfreq : result.2.frameDialfreq = capture.frameDialfreq
  frameStartUnix : result.2.frameStartUnix = capture.frameStartUnix
  frameDate : result.2.frameDate = capture.frameDate
  frameUttime : result.2.frameUttime = capture.frameUttime

omit [Field K] in
theorem dropTotal_concat (dropped : Block K → UInt64) (blocks : List (Block K))
    (block : Block K) : dropTotal dropped (blocks ++ [block]) =
      dropTotal dropped blocks + dropped block := by
  rw [dropTotal, List.foldl_append]
  rfl

/-- Between two frames a block is ignored. -/
theorem processSampleBlock_ignored (hflag : capture.captureFlag = false) (block : Block K) :
    processSampleBlock mode libm capture block = (false, capture) := by
  rw [processSampleBlock, hflag]
  rfl

/-- What a block does to a frame that is being captured, and that it does nothing between two
frames. The block is counted as a whole also where its last inputs are not fed any more. -/
theorem processSampleBlock_effect (hpos : 0 < start.factor mode) (hstart : start.phase mode = 0)
    (h : CaptureInv mode libm start capture) (block : Block K) :
    BlockEffect mode libm start capture block (processSampleBlock mode libm capture block) := by
  have hinputs : (capture.blocks ++ [block]).flatMap blockInputs =
      capture.blocks.flatMap blockInputs ++ blockInputs block := by
    rw [List.flatMap_append, List.flatMap_singleton]
  rcases hflag : capture.captureFlag
  · have hblocks : capture.blocks =
        if capture.captureFlag = true then capture.blocks ++ [block] else capture.blocks := by
      rw [hflag]
      rfl
    rw [processSampleBlock_ignored hflag]
    exact ⟨h, (Bool.and_true _).symm, nofun, hblocks, rfl, rfl, rfl, rfl⟩
  · obtain ⟨hshort, hfed⟩ := h.running hflag
    have hresult : processSampleBlock mode libm capture block =
        (capture.takeBlock block).feedAll mode libm (blockInputs block) := by
      rw [processSampleBlock, hflag]
      rfl
    have hblocks : (capture.takeBlock block).blocks =
        if capture.captureFlag = true then capture.blocks ++ [block] else capture.blocks := by
      rw [hflag]
      rfl
    have hfeeding : Feeding mode libm start (capture.takeBlock block) :=
      ⟨h.filters, h.samples, hshort⟩
    have hdevice : (capture.takeBlock block).deviceDroppedSamples =
        dropTotal (·.deviceDroppedSamples) (capture.blocks ++ [block]) := by
      rw [dropTotal_concat, ← h.device]
      rfl
    have hqueue : (capture.takeBlock block).queueDroppedSamples =
        dropTotal (·.queueDroppedSamples) (capture.blocks ++ [block]) := by
      rw [dropTotal_concat, ← h.queue]
      rfl
    have hall : capture.fed ++ blockInputs block =
        (capture.blocks ++ [block]).flatMap blockInputs := by
      rw [hinputs, hfed]
    have hprefix (taken : List (Option (ReceivedSample K))) (htaken : taken <+: blockInputs block) :
        capture.fed ++ taken <+: (capture.blocks ++ [block]).flatMap blockInputs := by
      rw [← hall]
      exact (List.prefix_append_right_inj _).mpr htaken
    have heffect := feedAll_effect hpos hstart (blockInputs block) hfeeding
    rw [hresult]
    generalize (capture.takeBlock block).feedAll mode libm (blockInputs block) = result at heffect
    cases heffect with
    | more hmore =>
        refine ⟨⟨rfl, rfl, hdevice, hqueue, hprefix _ List.prefix_rfl, ?_, ?_⟩, ?_, nofun, hblocks,
          rfl, rfl, rfl, rfl⟩
        · exact fun _ => ⟨hmore, hall⟩
        · exact fun hstopped => absurd (hflag.symm.trans hstopped) (by decide)
        · rw [hflag]
          exact hflag
    | complete taken htaken hfull =>
        refine ⟨⟨rfl, rfl, hdevice, hqueue, hprefix _ htaken, nofun, fun _ => hfull⟩, ?_,
          fun _ => hflag, hblocks, rfl, rfl, rfl, rfl⟩
        rw [hflag]
        rfl

theorem Filters.reset_run (filters : Filters K) (inputs : List (Option (ReceivedSample K))) :
    (filters.run mode libm inputs).reset mode = filters.reset mode := by
  induction inputs generalizing filters with
  | nil => rfl
  | cons input rest ih => rw [run, ih, reset_process]

@[simp] theorem Filters.reset_reset (filters : Filters K) :
    (filters.reset mode).reset mode = filters.reset mode := by
  cases mode <;> rfl

theorem Filters.reset_starts (mode : ReceiverMode) (filters : Filters K) :
    (filters.reset mode).phase mode = 0 ∧
      (filters.reset mode).factor mode = filters.factor mode := by
  cases mode <;> exact ⟨rfl, rfl⟩

theorem captureSampleTarget_pos (mode : ReceiverMode) : 0 < captureSampleTarget mode := by
  cases mode <;> decide

theorem Capture.start_inv (hreset : capture.filters.reset mode = start) (frameDialfreq : Nat)
    (frameStartUnix : Int) (frameDate frameUttime : CString) :
    CaptureInv mode libm start
      (capture.start mode frameDialfreq frameStartUnix frameDate frameUttime) where
  filters := hreset
  samples := rfl
  device := rfl
  queue := rfl
  fed := List.nil_prefix
  running := fun _ => ⟨captureSampleTarget_pos mode, rfl⟩
  full := nofun

/-- A block with enough inputs completes the frame. -/
theorem processSampleBlock_completes (hpos : 0 < start.factor mode)
    (hphase : start.phase mode = 0) {capture : Capture K}
    (hinv : CaptureInv mode libm start capture) (hflag : capture.captureFlag = true)
    {block : Block K} (hlong : captureSampleTarget mode * start.factor mode ≤
      capture.fed.length + (blockInputs block).length) :
    ∃ next : Capture K, next.captureFlag = false ∧
      processSampleBlock mode libm capture block = (true, next) := by
  have heffect := processSampleBlock_effect hpos hphase hinv block
  rcases hresult : processSampleBlock mode libm capture block with ⟨frameComplete, next⟩
  rw [hresult] at heffect
  have hended := heffect.flag
  cases frameComplete with
  | true =>
      rw [hflag] at hended
      exact ⟨next, hended, rfl⟩
  | false =>
      rw [hflag] at hended
      obtain ⟨hshort, hfed⟩ := heffect.inv.running hended
      have hblocks : next.blocks = capture.blocks ++ [block] := by
        rw [heffect.blocks, if_pos hflag]
      have hlength : next.fed.length = capture.fed.length + (blockInputs block).length := by
        rw [hfed, hblocks, List.flatMap_append, List.flatMap_singleton, List.length_append,
          (hinv.running hflag).2]
      rw [Capture.iqIndex, heffect.inv.samples, (Filters.run_counts libm hpos hphase _).2.2,
        hlength, Nat.div_lt_iff_lt_mul hpos] at hshort
      exact absurd hlong (Nat.not_le.mpr hshort)

end Frame

end AirspyhfWsprd.Receiver
