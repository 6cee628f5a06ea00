import AirspyhfWsprd.Library.Decimation
import Mathlib.Algebra.BigOperators.Fin
import Mathlib.Algebra.Ring.Defs

/-!
The resampler that turns receiver samples into the 12 kHz audio of an FT8 frame:
a complex oscillator, a circular history and a filter at the output rate. A ring
stands for `float` and `double`.
-/

namespace AirspyhfWsprd.Receiver

open Finset Library

variable {K : Type*} [Ring K]

def ft8AudioRate : Nat := 12000

abbrev ft8ResamplerTaps : Nat := 513

/-- What the state gets from `cos`, `sin`, `sqrt` and `hypot`: the oscillator's step
and the filter that `design_filter` computes for an input rate, and the pair
divided by its magnitude. -/
structure Libm (K : Type*) where
  stepCos : (inputRate : Nat) → K
  stepSin : (inputRate : Nat) → K
  designFilter : (inputRate : Nat) → Fin ft8ResamplerTaps → K
  normalized : K → K → K × K

/-- The `oscillator_` fields of `struct ft8_resampler`. -/
structure Oscillator (K : Type*) where
  samples : Nat
  cos : K
  sin : K
  stepCos : K
  stepSin : K

structure Ft8Resampler (K : Type*) where
  factor : Nat
  phase : Nat
  writeIndex : Nat
  oscillator : Oscillator K
  coefficients : Fin ft8ResamplerTaps → K
  history : Nat → K

def ft8ResamplerInit (libm : Libm K) (inputRate : Nat) : Option (Ft8Resampler K) :=
  if inputRate < ft8AudioRate ∨ inputRate % ft8AudioRate ≠ 0 then none
  else some {
    factor := inputRate / ft8AudioRate
    phase := 0
    writeIndex := 0
    oscillator := ⟨0, 1, 0, libm.stepCos inputRate, libm.stepSin inputRate⟩
    coefficients := libm.designFilter inputRate
    history := fun _ => 0}

def ft8ResamplerReset (state : Ft8Resampler K) : Ft8Resampler K where
  factor := state.factor
  phase := 0
  writeIndex := 0
  oscillator := ⟨0, 1, 0, state.oscillator.stepCos, state.oscillator.stepSin⟩
  coefficients := state.coefficients
  history := fun _ => 0

/-- One turn of the oscillator, back to magnitude one after every 4096 samples. -/
def Oscillator.next (libm : Libm K) (oscillator : Oscillator K) : Oscillator K :=
  let nextCos := oscillator.cos * oscillator.stepCos - oscillator.sin * oscillator.stepSin
  let nextSin := oscillator.sin * oscillator.stepCos + oscillator.cos * oscillator.stepSin
  if oscillator.samples + 1 = 4096 then
    let (cos, sin) := libm.normalized nextCos nextSin
    {oscillator with samples := 0, cos := cos, sin := sin}
  else {oscillator with samples := oscillator.samples + 1, cos := nextCos, sin := nextSin}

/-- `ft8_resampler_process`: the state behind it, and the output where it returns true. Each
input is mixed and put into the history; the filter runs only for an output. -/
def ft8ResamplerProcess (libm : Libm K) (state : Ft8Resampler K) (inputI inputQ : K) :
    Ft8Resampler K × Option K :=
  if state.factor = 0 then (state, none)
  else
    let mixed := inputI * state.oscillator.cos - inputQ * state.oscillator.sin
    let history := Function.update state.history state.writeIndex mixed
    let writeIndex := (state.writeIndex + 1) % ft8ResamplerTaps
    let state := {state with
      history := history
      writeIndex := writeIndex
      oscillator := state.oscillator.next libm}
    if state.phase + 1 < state.factor then
      ({state with phase := state.phase + 1}, none)
    else
      ({state with phase := 0},
        some (∑ index, state.coefficients index *
          history ((writeIndex + index.val) % ft8ResamplerTaps)))

/-- The state after the first `n` inputs. -/
def resampled (libm : Libm K) (start : Ft8Resampler K) (inputs : Nat → K × K) :
    Nat → Ft8Resampler K
  | 0 => start
  | n + 1 =>
      (ft8ResamplerProcess libm (resampled libm start inputs n) (inputs n).1 (inputs n).2).1

/-- What input number `n + 1` gives. -/
def resamplerOutput (libm : Libm K) (start : Ft8Resampler K) (inputs : Nat → K × K) (n : Nat) :
    Option K :=
  (ft8ResamplerProcess libm (resampled libm start inputs n) (inputs n).1 (inputs n).2).2

/-- The oscillator's sequence of values. -/
def oscillatorAt (libm : Libm K) (start : Oscillator K) (i : Nat) : Oscillator K :=
  (Oscillator.next libm)^[i] start

/-- The input shifted in frequency, zero before the start. -/
def mixedInput (libm : Libm K) (start : Oscillator K) (inputs : Nat → K × K) : Int → K :=
  fromStart fun i =>
    (inputs i).1 * (oscillatorAt libm start i).cos - (inputs i).2 * (oscillatorAt libm start i).sin

/-- The filter over the last 513 of the first `n` inputs. -/
def filteredAudio (libm : Libm K) (start : Ft8Resampler K) (inputs : Nat → K × K) (n : Nat) : K :=
  ∑ k, start.coefficients k *
    mixedInput libm start.oscillator inputs (n - ft8ResamplerTaps + k.val)

/-- A resampler in use since it was initialised at this rate. -/
inductive ResamplerUsed (libm : Libm K) (inputRate : Nat) : Ft8Resampler K → Prop
  | init {state : Ft8Resampler K} (h : ft8ResamplerInit libm inputRate = some state) :
      ResamplerUsed libm inputRate state
  | process {state : Ft8Resampler K} (h : ResamplerUsed libm inputRate state) (inputI inputQ : K) :
      ResamplerUsed libm inputRate (ft8ResamplerProcess libm state inputI inputQ).1
  | reset {state : Ft8Resampler K} (h : ResamplerUsed libm inputRate state) :
      ResamplerUsed libm inputRate (ft8ResamplerReset state)

/-- A state that `ft8_resampler_init` or `ft8_resampler_reset` leaves behind. -/
def ResamplerStarts (libm : Libm K) (start : Ft8Resampler K) : Prop :=
  (∃ inputRate, ft8ResamplerInit libm inputRate = some start) ∨
    ∃ old, ft8ResamplerReset old = start

theorem ft8ResamplerInit_cleared {libm : Libm K} {inputRate : Nat} {start : Ft8Resampler K}
    (h : ft8ResamplerInit libm inputRate = some start) : ft8ResamplerReset start = start := by
  rw [ft8ResamplerInit] at h
  split at h
  · cases h
  · obtain rfl := Option.some.inj h
    rfl

theorem ResamplerStarts.cleared {libm : Libm K} {start : Ft8Resampler K}
    (h : ResamplerStarts libm start) : ft8ResamplerReset start = start := by
  rcases h with ⟨inputRate, hinit⟩ | ⟨old, rfl⟩
  · exact ft8ResamplerInit_cleared hinit
  · rfl

@[simp] theorem Oscillator.next_stepCos (libm : Libm K) (oscillator : Oscillator K) :
    (oscillator.next libm).stepCos = oscillator.stepCos := by
  rw [Oscillator.next]
  dsimp only
  split <;> rfl

@[simp] theorem Oscillator.next_stepSin (libm : Libm K) (oscillator : Oscillator K) :
    (oscillator.next libm).stepSin = oscillator.stepSin := by
  rw [Oscillator.next]
  dsimp only
  split <;> rfl

/-- No call changes what a reset keeps. -/
theorem ft8ResamplerReset_process (libm : Libm K) (state : Ft8Resampler K) (inputI inputQ : K) :
    ft8ResamplerReset (ft8ResamplerProcess libm state inputI inputQ).1 =
      ft8ResamplerReset state := by
  rw [ft8ResamplerProcess]
  dsimp only
  split
  · rfl
  · split <;> simp [ft8ResamplerReset]

theorem ResamplerUsed.reset_eq {libm : Libm K} {inputRate : Nat} {state fresh : Ft8Resampler K}
    (h : ResamplerUsed libm inputRate state)
    (hfresh : ft8ResamplerInit libm inputRate = some fresh) : ft8ResamplerReset state = fresh := by
  induction h with
  | init hinit =>
      obtain rfl := Option.some.inj (hinit.symm.trans hfresh)
      exact ft8ResamplerInit_cleared hfresh
  | process _ inputI inputQ ih => rw [ft8ResamplerReset_process, ih]
  | reset _ ih => exact ih

/-- The resampler after `n` inputs from `start`: the counters are `n` modulo their ranges, and
the history holds the last mixed inputs. -/
structure ResamplerTracks (libm : Libm K) (start : Ft8Resampler K) (inputs : Nat → K × K)
    (n : Nat) (state : Ft8Resampler K) : Prop where
  factor_eq : state.factor = start.factor
  coefficients_eq : state.coefficients = start.coefficients
  phase_eq : state.phase = n % start.factor
  writeIndex_eq : state.writeIndex = n % ft8ResamplerTaps
  oscillator_eq : state.oscillator = oscillatorAt libm start.oscillator n
  history : HoldsLast ft8ResamplerTaps state.history n (mixedInput libm start.oscillator inputs)

variable {libm : Libm K} {start state : Ft8Resampler K} {inputs : Nat → K × K} {n : Nat}

/-- An input is mixed down and written to the circular history, and every `factor`-th one gives
an output: the real part of the filter over the last inputs, the oldest of which the write has
just replaced. -/
theorem ft8ResamplerProcess_step (hpos : 0 < start.factor)
    (h : ResamplerTracks libm start inputs n state) :
    ResamplerTracks libm start inputs (n + 1)
        (ft8ResamplerProcess libm state (inputs n).1 (inputs n).2).1 ∧
      (ft8ResamplerProcess libm state (inputs n).1 (inputs n).2).2 =
        if n % start.factor + 1 < start.factor then none
        else some (filteredAudio libm start inputs (n + 1)) := by
  have hnext : (state.writeIndex + 1) % ft8ResamplerTaps = (n + 1) % ft8ResamplerTaps := by
    rw [h.writeIndex_eq, Nat.mod_add_mod]
  have hoscillator : state.oscillator.next libm = oscillatorAt libm start.oscillator (n + 1) := by
    rw [h.oscillator_eq, oscillatorAt, oscillatorAt, Function.iterate_succ_apply']
  have hmixed : (inputs n).1 * state.oscillator.cos - (inputs n).2 * state.oscillator.sin =
      mixedInput libm start.oscillator inputs n := by
    rw [h.oscillator_eq, mixedInput, fromStart_natCast]
  have hhistory := h.history.write
  rw [ft8ResamplerProcess, if_neg (by rw [h.factor_eq]; exact hpos.ne')]
  dsimp only
  rw [h.factor_eq, h.phase_eq, hmixed]
  split
  · rename_i hcounts
    refine ⟨⟨rfl, h.coefficients_eq, (phase_counts hcounts).2.symm, hnext, hoscillator, ?_⟩, rfl⟩
    rw [h.writeIndex_eq]
    exact hhistory
  · rename_i hwraps
    refine ⟨⟨rfl, h.coefficients_eq, (phase_wraps hpos hwraps).2.symm, hnext, hoscillator, ?_⟩, ?_⟩
    · rw [h.writeIndex_eq]
      exact hhistory
    · rw [filteredAudio, h.coefficients_eq]
      refine congrArg some (sum_congr rfl fun k _ => ?_)
      rw [hnext, Nat.mod_add_mod, h.writeIndex_eq, hhistory k.val k.isLt]

/-- After any number of inputs the resampler tracks the inputs since its reset, whatever its
history held before it was reset. -/
theorem resampled_tracks (hpos : 0 < start.factor) (hstart : ResamplerStarts libm start)
    (inputs : Nat → K × K) (n : Nat) :
    ResamplerTracks libm start inputs n (resampled libm start inputs n) := by
  induction n with
  | zero =>
      have hcleared := hstart.cleared
      refine ⟨rfl, rfl, ?_, ?_, rfl, ?_⟩
      · rw [Nat.zero_mod]
        exact (congrArg Ft8Resampler.phase hcleared).symm
      · rw [Nat.zero_mod]
        exact (congrArg Ft8Resampler.writeIndex hcleared).symm
      · have hhistory : start.history = fun _ => 0 :=
          (congrArg Ft8Resampler.history hcleared).symm
        rw [resampled, hhistory]
        exact holdsLast_start (fromStart_startsAtZero _)
  | succ n ih => exact (ft8ResamplerProcess_step hpos ih).1

/-- The resampler gives an output on every input whose number is a multiple of the factor and
on no other: the filter over the last 513 shifted inputs. The filter reads the circular history
from its oldest entry on. A reset brings a resampler back to its initialisation. -/
theorem resampler_is_fir (hpos : 1 ≤ start.factor) (hstart : ResamplerStarts libm start)
    (inputs : Nat → K × K) :
    (∀ n, (resamplerOutput libm start inputs n).isSome ↔ start.factor ∣ n + 1) ∧
      (∀ n, start.factor ∣ n + 1 →
        resamplerOutput libm start inputs n = some (filteredAudio libm start inputs (n + 1))) ∧
      ∀ inputRate fresh old, ft8ResamplerInit libm inputRate = some fresh →
        ResamplerUsed libm inputRate old → ft8ResamplerReset old = fresh := by
  have hout (n : Nat) := (ft8ResamplerProcess_step hpos (resampled_tracks hpos hstart inputs n)).2
  refine ⟨fun n => ?_, fun n hn => ?_, fun inputRate fresh old hfresh hold => ?_⟩
  · rw [phase_full_iff hpos, resamplerOutput, hout]
    split
    · rename_i hcounts
      exact ⟨fun h => (nomatch h), fun h => absurd hcounts h⟩
    · rename_i hwraps
      exact ⟨fun _ => hwraps, fun _ => rfl⟩
  · rw [resamplerOutput, hout, if_neg ((phase_full_iff hpos).mp hn)]
  · exact hold.reset_eq hfresh

/-- A resampler for 24 kHz, with the whole numbers for numbers. -/
def exampleLibm : Libm Int where
  stepCos _ := 0
  stepSin _ := 1
  designFilter _ := fun _ => 1
  normalized cos sin := (cos, sin)

def exampleResampler : Ft8Resampler Int :=
  ⟨2, 0, 0, ⟨0, 1, 0, 0, 1⟩, fun _ => 1, fun _ => 0⟩

/-- From 24 kHz every second input has an output. -/
theorem resampler_at_24_kilohertz :
    (resamplerOutput exampleLibm exampleResampler (fun _ => (1, 0)) 0).isSome = false ∧
      resamplerOutput exampleLibm exampleResampler (fun _ => (1, 0)) 1 =
        some (filteredAudio exampleLibm exampleResampler (fun _ => (1, 0)) 2) := by
  have hstart : ResamplerStarts exampleLibm exampleResampler := Or.inl ⟨24000, rfl⟩
  obtain ⟨hready, hvalue, -⟩ := resampler_is_fir (by decide) hstart fun _ => ((1 : Int), 0)
  have hodd : ¬ 2 ∣ 0 + 1 := by decide
  exact ⟨Bool.eq_false_iff.mpr fun h => hodd ((hready 0).mp h), hvalue 1 (Dvd.intro 1 rfl)⟩

end AirspyhfWsprd.Receiver
