import AirspyhfWsprd.Library.Decimation
import Mathlib.Algebra.BigOperators.Fin
import Mathlib.Algebra.Field.Rat
import Mathlib.Data.Fin.VecNotation
import Mathlib.Tactic.FieldSimp
import Mathlib.Tactic.Ring

/-!
The decimator that turns receiver samples into the 375 samples/s of a WSPR
frame: two integrators at the input rate, two combs at the output rate and a
compensation filter. Exact arithmetic in a field stands for `float` and `double`.
-/

namespace AirspyhfWsprd.Receiver

open Finset Library

variable {K : Type*} [Field K]

def wsprOutputRate : Nat := 375

abbrev wsprFirTaps : Nat := 33

/-- The compensation filter for the two-stage, differential-delay-two CIC: 33 taps, symmetric,
with a half in the middle. -/
def compensationFir : Fin wsprFirTaps → K :=
  ![-0.0027772683, -0.0005058826,  0.0049745750, -0.0034059318,
    -0.0077557814,  0.0139375423,  0.0039896935, -0.0299394142,
     0.0162250643,  0.0405130860, -0.0580746013, -0.0272104968,
     0.1183705475, -0.0306029022, -0.2011241667,  0.1615898423,
     0.5000000000,
     0.1615898423, -0.2011241667, -0.0306029022,  0.1183705475,
    -0.0272104968, -0.0580746013,  0.0405130860,  0.0162250643,
    -0.0299394142,  0.0039896935,  0.0139375423, -0.0077557814,
    -0.0034059318,  0.0049745750, -0.0005058826, -0.0027772683]

/-- The fields of `struct wspr_decimator` for one component, I or Q. The source has the two
side by side; nothing is exchanged between them. -/
structure DecimatorChannel (K : Type*) where
  integrator1 : K
  integrator2 : K
  comb1Z1 : K
  comb1Z2 : K
  comb2Z1 : K
  comb2Z2 : K
  fir : Fin wsprFirTaps → K

structure WsprDecimator (K : Type*) where
  factor : Nat
  phase : Nat
  i : DecimatorChannel K
  q : DecimatorChannel K

/-- `memset` of the fields of one component -/
def DecimatorChannel.zero : DecimatorChannel K :=
  ⟨0, 0, 0, 0, 0, 0, fun _ => 0⟩

def wsprDecimatorInit (inputRate : Nat) : Option (WsprDecimator K) :=
  if inputRate = 0 ∨ inputRate % wsprOutputRate ≠ 0 then none
  else some ⟨inputRate / wsprOutputRate, 0, .zero, .zero⟩

def wsprDecimatorReset (state : WsprDecimator K) : WsprDecimator K :=
  ⟨state.factor, 0, .zero, .zero⟩

def DecimatorChannel.integrate (channel : DecimatorChannel K) (input : K) : DecimatorChannel K :=
  let integrator1 := channel.integrator1 + input
  {channel with
    integrator1 := integrator1
    integrator2 := channel.integrator2 + integrator1}

/-- The two combs and the shift of the filter's delay line, which is what happens once for each
output. -/
def DecimatorChannel.comb (channel : DecimatorChannel K) : DecimatorChannel K :=
  let comb1 := channel.integrator2 - channel.comb1Z2
  let comb2 := comb1 - channel.comb2Z2
  {channel with
    comb1Z2 := channel.comb1Z1
    comb1Z1 := channel.integrator2
    comb2Z2 := channel.comb2Z1
    comb2Z1 := comb1
    fir := fun index =>
      if h : index.val + 1 < wsprFirTaps then channel.fir ⟨index.val + 1, h⟩ else comb2}

/-- The filter sum over the CIC gain `(factor * differential delay)^2`. -/
def DecimatorChannel.output (channel : DecimatorChannel K) (factor : Nat) : K :=
  (∑ index, channel.fir index * compensationFir index) / (4 * factor * factor)

/-- `wspr_decimator_process`: the state behind it, and the output pair where it returns true.
Each input is integrated, and each `factor`-th one goes through the combs and the filter. -/
def wsprDecimatorProcess (state : WsprDecimator K) (inputI inputQ : K) :
    WsprDecimator K × Option (K × K) :=
  if state.factor = 0 then (state, none)
  else
    let i := state.i.integrate inputI
    let q := state.q.integrate inputQ
    if state.phase + 1 < state.factor then
      ({state with phase := state.phase + 1, i := i, q := q}, none)
    else
      let i := i.comb
      let q := q.comb
      ({state with phase := 0, i := i, q := q},
        some (i.output state.factor, q.output state.factor))

/-- The state after the first `n` inputs. -/
def decimated (start : WsprDecimator K) (inputs : Nat → K × K) : Nat → WsprDecimator K
  | 0 => start
  | n + 1 => (wsprDecimatorProcess (decimated start inputs n) (inputs n).1 (inputs n).2).1

/-- What input number `n + 1` gives. -/
def decimatorOutput (start : WsprDecimator K) (inputs : Nat → K × K) (n : Nat) : Option (K × K) :=
  (wsprDecimatorProcess (decimated start inputs n) (inputs n).1 (inputs n).2).2

/-- The double moving sum of length `2 * factor` at output time `m`. -/
def doubleBoxcar (factor : Nat) (x : Int → K) (m : Int) : K :=
  ∑ a ∈ range (2 * factor), ∑ b ∈ range (2 * factor), x (m * factor - 1 - a - b)

/-- Output number `m` of one component. -/
def filteredSample (factor : Nat) (x : Int → K) (m : Int) : K :=
  1 / (4 * (factor : K) ^ 2) * ∑ t, compensationFir t * doubleBoxcar factor x (m - 32 + t.val)

/-- A state that `wspr_decimator_init` or `wspr_decimator_reset` leaves behind. -/
def DecimatorStarts (factor : Nat) (start : WsprDecimator K) : Prop :=
  start.factor = factor ∧
    ((∃ inputRate, wsprDecimatorInit inputRate = some start) ∨
      ∃ old, wsprDecimatorReset old = start)

theorem DecimatorStarts.eq {factor : Nat} {start : WsprDecimator K}
    (h : DecimatorStarts factor start) : start = ⟨factor, 0, .zero, .zero⟩ := by
  obtain ⟨rfl, ⟨inputRate, hinit⟩ | ⟨old, rfl⟩⟩ := h
  · rw [wsprDecimatorInit] at hinit
    split at hinit
    · cases hinit
    · obtain rfl := Option.some.inj hinit
      rfl
  · rfl

/-- One component after `n` inputs and `m` outputs: each register is an integral of the inputs,
and the delay line holds the last 33 double moving sums. -/
structure ChannelTracks (factor : Nat) (x : Int → K) (n : Nat) (m : Int)
    (channel : DecimatorChannel K) : Prop where
  integrator1 : channel.integrator1 = integral x n
  integrator2 : channel.integrator2 = doubleIntegral x n
  comb1Z1 : channel.comb1Z1 = doubleIntegral x (m * factor)
  comb1Z2 : channel.comb1Z2 = doubleIntegral x ((m - 1) * factor)
  comb2Z1 : channel.comb2Z1 =
    doubleIntegral x (m * factor) - doubleIntegral x ((m - 2) * factor)
  comb2Z2 : channel.comb2Z2 =
    doubleIntegral x ((m - 1) * factor) - doubleIntegral x ((m - 3) * factor)
  fir : ∀ t, channel.fir t = doubleBoxcar factor x (m - 32 + t.val)

variable {factor : Nat} {x : Int → K} {n : Nat} {m : Int} {channel : DecimatorChannel K}

theorem doubleBoxcar_eq_boxcar (factor : Nat) (x : Int → K) (m : Int) :
    doubleBoxcar factor x m = boxcar (2 * factor) (boxcar (2 * factor) x) (m * factor - 1) :=
  rfl

theorem doubleBoxcar_eq_combs (hx : StartsAtZero x) (factor : Nat) (m : Int) :
    doubleBoxcar factor x m =
      (doubleIntegral x (m * factor) - doubleIntegral x ((m - 2) * factor)) -
        (doubleIntegral x ((m - 2) * factor) - doubleIntegral x ((m - 4) * factor)) := by
  have hend : m * factor - 1 + 1 = m * (factor : Int) := by ring
  have hone : m * (factor : Int) - (2 * factor : Nat) = (m - 2) * factor := by
    push_cast
    ring
  have htwo : (m - 2) * (factor : Int) - (2 * factor : Nat) = (m - 4) * factor := by
    push_cast
    ring
  rw [doubleBoxcar_eq_boxcar, boxcar_boxcar hx, hend, hone, htwo]

theorem doubleBoxcar_of_nonpos (hx : StartsAtZero x) (factor : Nat) (h : m ≤ 0) :
    doubleBoxcar factor x m = 0 := by
  have hstart : m * (factor : Int) ≤ 0 := Int.mul_nonpos_of_nonpos_of_nonneg h (by omega)
  exact sum_eq_zero fun a _ => sum_eq_zero fun b _ => hx _ (by omega)

/-- The reset state tracks a signal that is zero before its start: all sums are empty. -/
theorem channelTracks_zero (hx : StartsAtZero x) (factor : Nat) :
    ChannelTracks factor x 0 0 .zero := by
  have hbefore (k : Int) (hk : k ≤ 0) : doubleIntegral x (k * factor) = 0 :=
    doubleIntegral_of_nonpos x (Int.mul_nonpos_of_nonpos_of_nonneg hk (by omega))
  constructor
  · exact (integral_of_nonpos x (le_refl _)).symm
  · exact (doubleIntegral_of_nonpos x (le_refl _)).symm
  · exact (hbefore 0 (by omega)).symm
  · exact (hbefore _ (by omega)).symm
  · rw [hbefore 0 (by omega), hbefore _ (by omega), sub_zero]
    rfl
  · rw [hbefore _ (by omega), hbefore _ (by omega), sub_zero]
    rfl
  · intro t
    have ht : t.val < 33 := t.isLt
    rw [doubleBoxcar_of_nonpos hx factor (by omega)]
    rfl

theorem ChannelTracks.integrate (hx : StartsAtZero x) (h : ChannelTracks factor x n m channel) :
    ChannelTracks factor x (n + 1) m (channel.integrate (x n)) := by
  have hintegral : (channel.integrate (x n)).integrator1 = integral x ((n + 1 : Nat) : Int) := by
    rw [Nat.cast_succ, integral_add_one hx, ← h.integrator1]
    rfl
  refine ⟨hintegral, ?_, h.comb1Z1, h.comb1Z2, h.comb2Z1, h.comb2Z2, h.fir⟩
  rw [Nat.cast_succ, doubleIntegral_add_one, ← h.integrator2, ← Nat.cast_succ, ← hintegral]
  rfl

/-- A comb step at input `(m + 1) * factor` moves the whole state to output `m + 1`. -/
theorem ChannelTracks.comb (hx : StartsAtZero x) (h : ChannelTracks factor x n m channel)
    (hn : (n : Int) = (m + 1) * factor) : ChannelTracks factor x n (m + 1) channel.comb := by
  have hintegrator2 : channel.integrator2 = doubleIntegral x ((m + 1) * factor) := by
    rw [h.integrator2, hn]
  have hcomb1 : channel.integrator2 - channel.comb1Z2 =
      doubleIntegral x ((m + 1) * factor) - doubleIntegral x ((m + 1 - 2) * factor) := by
    rw [hintegrator2, h.comb1Z2]
    congr 3
    ring
  refine ⟨h.integrator1, h.integrator2, hintegrator2, ?_, hcomb1, ?_, ?_⟩
  · rw [add_sub_cancel_right]
    exact h.comb1Z1
  · have hback : m + 1 - 3 = m - 2 := by ring
    rw [add_sub_cancel_right, hback]
    exact h.comb2Z1
  · intro t
    rw [DecimatorChannel.comb]
    dsimp only
    split
    · rw [h.fir]
      congr 1
      push_cast
      ring
    · rename_i hlast
      have hnewest : m + 1 - 32 + (t.val : Int) = m + 1 := by
        have ht : t.val < 33 := t.isLt
        have hlast : ¬ t.val + 1 < 33 := hlast
        omega
      rw [hnewest, doubleBoxcar_eq_combs hx, hcomb1, h.comb2Z2]
      congr 4 <;> ring

theorem ChannelTracks.output (h : ChannelTracks factor x n m channel) :
    channel.output factor = filteredSample factor x m := by
  rw [DecimatorChannel.output, filteredSample, div_eq_mul_inv, mul_comm, one_div, pow_two,
    mul_assoc]
  congr 1
  refine sum_congr rfl fun t _ => ?_
  rw [h.fir, mul_comm]

/-- The decimator after `n` inputs from a start with this factor. -/
structure DecimatorTracks (factor : Nat) (inputs : Nat → K × K) (n : Nat)
    (state : WsprDecimator K) : Prop where
  factor_eq : state.factor = factor
  phase_eq : state.phase = n % factor
  i : ChannelTracks factor (fromStart fun k => (inputs k).1) n (n / factor : Nat) state.i
  q : ChannelTracks factor (fromStart fun k => (inputs k).2) n (n / factor : Nat) state.q

variable {inputs : Nat → K × K} {state : WsprDecimator K}

/-- An input that does not complete a group of `factor` inputs is integrated twice and gives no
output. -/
theorem wsprDecimatorProcess_counts (h : DecimatorTracks factor inputs n state)
    (hphase : n % factor + 1 < factor) :
    DecimatorTracks factor inputs (n + 1)
        (wsprDecimatorProcess state (inputs n).1 (inputs n).2).1 ∧
      (wsprDecimatorProcess state (inputs n).1 (inputs n).2).2 = none := by
  have hi := h.i.integrate (fromStart_startsAtZero _)
  have hq := h.q.integrate (fromStart_startsAtZero _)
  rw [fromStart_natCast] at hi hq
  obtain ⟨hdiv, hmod⟩ := phase_counts hphase
  rw [← h.phase_eq, ← h.factor_eq] at hphase
  rw [wsprDecimatorProcess, if_neg (by omega)]
  dsimp only
  rw [if_pos hphase]
  refine ⟨⟨h.factor_eq, ?_, ?_, ?_⟩, rfl⟩
  · rw [hmod, ← h.phase_eq]
  · rwa [hdiv]
  · rwa [hdiv]

/-- The input that completes a group gives an output: the combs and the compensation filter
make of the integrators the filtered sample of both channels. -/
theorem wsprDecimatorProcess_wraps (hpos : 0 < factor) (h : DecimatorTracks factor inputs n state)
    (hphase : ¬ n % factor + 1 < factor) :
    DecimatorTracks factor inputs (n + 1)
        (wsprDecimatorProcess state (inputs n).1 (inputs n).2).1 ∧
      (wsprDecimatorProcess state (inputs n).1 (inputs n).2).2 =
        some (filteredSample factor (fromStart fun k => (inputs k).1) ((n + 1) / factor : Nat),
          filteredSample factor (fromStart fun k => (inputs k).2) ((n + 1) / factor : Nat)) := by
  obtain ⟨hdiv, hmod⟩ := phase_wraps hpos hphase
  have htime : ((n + 1 : Nat) : Int) = ((n / factor : Nat) + 1) * factor := by
    have h := Nat.div_add_mod (n + 1) factor
    rw [hmod, hdiv, Nat.add_zero, Nat.mul_comm] at h
    exact_mod_cast h.symm
  have hi := (h.i.integrate (fromStart_startsAtZero _)).comb (fromStart_startsAtZero _) htime
  have hq := (h.q.integrate (fromStart_startsAtZero _)).comb (fromStart_startsAtZero _) htime
  have hcast : ((n / factor : Nat) : Int) + 1 = ((n + 1) / factor : Nat) := by
    rw [hdiv, Nat.cast_succ]
  rw [fromStart_natCast, hcast] at hi hq
  rw [← h.phase_eq, ← h.factor_eq] at hphase
  rw [wsprDecimatorProcess, if_neg (by rw [h.factor_eq]; exact hpos.ne')]
  dsimp only
  rw [if_neg hphase, h.factor_eq]
  refine ⟨⟨rfl, hmod.symm, hi, hq⟩, ?_⟩
  rw [hi.output, hq.output]

/-- After any number of inputs the decimator tracks the signal it was fed since its reset, by
induction on the inputs with the two lemmas before as its steps. -/
theorem decimated_tracks {start : WsprDecimator K} (hpos : 0 < factor)
    (hstart : DecimatorStarts factor start) (inputs : Nat → K × K) (n : Nat) :
    DecimatorTracks factor inputs n (decimated start inputs n) := by
  induction n with
  | zero =>
      rw [hstart.eq]
      refine ⟨rfl, (Nat.zero_mod factor).symm, ?_, ?_⟩
      · rw [Nat.zero_div]
        exact channelTracks_zero (fromStart_startsAtZero _) factor
      · rw [Nat.zero_div]
        exact channelTracks_zero (fromStart_startsAtZero _) factor
  | succ n ih =>
      rcases Nat.lt_or_ge (n % factor + 1) factor with hcounts | hwraps
      · exact (wsprDecimatorProcess_counts ih hcounts).1
      · exact (wsprDecimatorProcess_wraps hpos ih hwraps.not_gt).1

/-- The decimator gives output number `m` on input number `m * factor` and no other, and that
output is the double moving sum behind the compensation filter. The integrators run on through
all inputs and the combs take the differences back out, so no rounding is asked about: the
samples are of any field. A reset state is the state of an initialisation, whatever was
processed before it. -/
theorem decimator_is_filtered_boxcar {start : WsprDecimator K} (hpos : 1 ≤ factor)
    (hstart : DecimatorStarts factor start) (inputs : Nat → K × K) :
    (∀ n, (decimatorOutput start inputs n).isSome ↔ factor ∣ n + 1) ∧
      (∀ n m : Nat, n + 1 = m * factor →
        decimatorOutput start inputs n =
          some (filteredSample factor (fromStart fun k => (inputs k).1) m,
            filteredSample factor (fromStart fun k => (inputs k).2) m)) ∧
      ∀ old : WsprDecimator K, old.factor = factor → wsprDecimatorReset old = start := by
  refine ⟨fun n => ?_, fun n m hn => ?_, fun old hold => ?_⟩
  · have htracks := decimated_tracks hpos hstart inputs n
    rw [phase_full_iff hpos, decimatorOutput]
    constructor
    · intro hout hcounts
      rw [(wsprDecimatorProcess_counts htracks hcounts).2] at hout
      cases hout
    · intro hwraps
      rw [(wsprDecimatorProcess_wraps hpos htracks hwraps).2]
      rfl
  · have hwraps := (phase_full_iff hpos).mp (Dvd.intro_left m hn.symm)
    have htracks := decimated_tracks hpos hstart inputs n
    have hm : (n + 1) / factor = m := by
      rw [hn]
      exact Nat.mul_div_cancel m hpos
    rw [decimatorOutput, (wsprDecimatorProcess_wraps hpos htracks hwraps).2, hm]
  · rw [hstart.eq, wsprDecimatorReset, hold]

/-- Two inputs for each output, and a constant signal on I. -/
theorem decimator_at_750_hertz :
    (decimatorOutput ⟨2, 0, .zero, .zero⟩ (fun _ => ((1 : Rat), 0)) 0).isSome = false ∧
      decimatorOutput ⟨2, 0, .zero, .zero⟩ (fun _ => ((1 : Rat), 0)) 1 =
        some (filteredSample 2 (fromStart fun _ => 1) 1,
          filteredSample 2 (fromStart fun _ => 0) 1) := by
  have hstart : DecimatorStarts 2 (⟨2, 0, .zero, .zero⟩ : WsprDecimator Rat) :=
    ⟨rfl, Or.inl ⟨750, rfl⟩⟩
  obtain ⟨hready, hvalue, -⟩ :=
    decimator_is_filtered_boxcar (by decide) hstart fun _ => ((1 : Rat), 0)
  refine ⟨?_, hvalue 1 1 rfl⟩
  have hodd : ¬ 2 ∣ 0 + 1 := by decide
  exact Bool.eq_false_iff.mpr fun h => hodd ((hready 0).mp h)

end AirspyhfWsprd.Receiver
