import AirspyhfWsprd.Bands.AdviceSafety
import AirspyhfWsprd.Jt9.DecodeLine
import AirspyhfWsprd.Library.RoundedInteger
import AirspyhfWsprd.Psk.Packet

/-!
The frequency of an FT8 report. `wsprDecoder` adds the dial frequency and the audio frequency
as `float`, which holds 24 bits: above 2^24 Hz the sum is rounded, and the dial frequency
before it.
-/

namespace AirspyhfWsprd.Psk

open Library Bands Jt9

/-- The argument of `lroundf` in `wsprDecoder`: dial frequency and audio frequency. -/
def reportedFrequency (freq : UInt32) (audioFrequencyHz : FloatValue) : FloatValue :=
  .add binary32 (.ofInt binary32 freq.toNat) audioFrequencyHz

/-- The report that `wsprDecoder` makes of an FT8 decode; nothing where `lroundf` has no
value. -/
def ft8Report (freq : UInt32) (frameStartUnix : Int) (result : Ft8DecodeResult) :
    Option PskReport := do
  let snr ← result.snr.lround
  let frequency ← (reportedFrequency freq result.audioFrequencyHz).lround
  some {
    senderCall := copyText 13 (cstr result.transmitterCall)
    frequencyHz := UInt32.ofInt frequency
    snr := Int8.ofInt (if snr < -128 then -128 else if snr > 127 then 127 else snr)
    flowStart := frameStartUnix}

/-- A dial frequency that `main` accepts leaves room for the audio frequency in 32 bits. -/
theorem calculateReceiverFrequency_room {shift : Int32} {upconverter freq : UInt32}
    (h : (calculateReceiverFrequency shift upconverter freq).isSome = true) :
    freq.toNat < 2410000000 := by
  have hshift : -2 ^ 31 ≤ shift.toInt := Int32.le_toInt shift
  rw [calculateReceiverFrequency] at h
  split at h
  · cases h
  · omega

theorem log2_lt_32 {number : Nat} (h : number < 2 ^ 32) : Nat.log2 number < 32 := by
  rcases Nat.eq_zero_or_pos number with rfl | hpos
  · decide
  · exact (Nat.log2_lt hpos.ne').mpr h

theorem covers_binary32 {number : Nat} (h : number < 2 ^ 32) : binary32.Covers number := by
  have hlog := log2_lt_32 h
  refine ⟨by decide, by decide, ?_⟩
  dsimp only [binary32]
  omega

theorem roundSignificand_room {number : Nat} (h : number < 2 ^ 32) :
    roundSignificand 24 number ≤ number + 128 := by
  have hlog := log2_lt_32 h
  have hnear := (roundSignificand_near (Eq.refl (roundSignificand 24 number))).1
  have hspacing : significandSpacing 24 number ≤ 2 ^ 8 :=
    Nat.pow_le_pow_right Nat.two_pos (by omega)
  omega

/-- The report has the rounded sum of the rounded dial frequency and the audio frequency. -/
theorem ft8Report_frequency {freq : UInt32} {audio : Nat} (hfreq : freq.toNat < 2410000000)
    (haudio : audio ≤ 3000) {result : Ft8DecodeResult} (hsnr : result.snr.lround.isSome = true)
    (hresult : result.audioFrequencyHz.IsNat audio) (frameStartUnix : Int) :
    (ft8Report freq frameStartUnix result).map (·.frequencyHz.toNat) =
      some (roundSignificand 24 (roundSignificand 24 freq.toNat + audio)) := by
  obtain ⟨snr, hsnr⟩ := Option.isSome_iff_exists.mp hsnr
  have hdial : roundSignificand 24 freq.toNat ≤ freq.toNat + 128 :=
    roundSignificand_room (by omega)
  have hfloat : (FloatValue.ofInt binary32 freq.toNat).IsNat (roundSignificand 24 freq.toNat) :=
    ofInt_isNat (covers_binary32 (by omega))
  have hsum : (reportedFrequency freq result.audioFrequencyHz).IsNat
      (roundSignificand 24 (roundSignificand 24 freq.toNat + audio)) :=
    add_isNat hfloat hresult (covers_binary32 (by omega))
  have hroom : roundSignificand 24 (roundSignificand 24 freq.toNat + audio) ≤
      roundSignificand 24 freq.toNat + audio + 128 := roundSignificand_room (by omega)
  generalize roundSignificand 24 (roundSignificand 24 freq.toNat + audio) = rounded at *
  have hsmall : rounded < 2 ^ 32 := by omega
  have hfits : (UInt32.ofInt (rounded : Int)).toNat = rounded := by
    rw [UInt32.ofInt, UInt32.toNat_ofNat']
    omega
  rw [ft8Report, hsnr, lround_isNat hsum (by omega)]
  exact congrArg some hfits

/-- The report has the decoded frequency exactly when the float sum is exact. Below 2^24 it
always is, and above that the sum is rounded to a multiple of two or more. -/
theorem report_frequency_iff {shift : Int32} {upconverter freq : UInt32}
    (hadmitted : (calculateReceiverFrequency shift upconverter freq).isSome = true) {audio : Nat}
    (hlow : 200 ≤ audio) (hhigh : audio ≤ 3000) {result : Ft8DecodeResult}
    (hsnr : result.snr.lround.isSome = true) (hresult : result.audioFrequencyHz.IsNat audio)
    (frameStartUnix : Int) :
    (ft8Report freq frameStartUnix result).map (·.frequencyHz.toNat) =
      some (freq.toNat + audio) ↔ SumExact 24 freq.toNat audio := by
  rw [ft8Report_frequency (calculateReceiverFrequency_room hadmitted) hhigh hsnr hresult,
    Option.some_inj]
  exact sum_rounded_iff (by decide) (by omega)

/-- A decode at 1501 Hz. -/
def oddDecode : Ft8DecodeResult where
  snr := .finite true 10 0
  dt := .finite false 0 0
  audioFrequencyHz := .finite false 1501 0
  message := bytes "CQ N0CAL DM04"
  transmitterCall := bytes "N0CAL" ++ List.replicate 8 0
  transmitterGrid := bytes "DM04" ++ List.replicate 3 0

/-- On 20 m the sum stays below 2^24. -/
theorem oddDecode_on_20m :
    (ft8Report 14074000 1200 oddDecode).map (·.frequencyHz.toNat) = some (14074000 + 1501) := by
  have hadmitted : (calculateReceiverFrequency 0 0 14074000).isSome = true := by decide
  have hresult : oddDecode.audioFrequencyHz.IsNat 1501 := .of rfl
  exact (report_frequency_iff hadmitted (by decide) (by decide) (by decide) hresult 1200).mpr
    (by decide)

/-- On 17 m it is an odd number above 2^24. -/
theorem oddDecode_on_17m :
    ¬ ∀ (shift : Int32) (upconverter freq : UInt32) (audio : Nat) (result : Ft8DecodeResult)
      (frameStartUnix : Int), (calculateReceiverFrequency shift upconverter freq).isSome = true →
        200 ≤ audio → audio ≤ 3000 → result.snr.lround.isSome = true →
        result.audioFrequencyHz.IsNat audio →
        (ft8Report freq frameStartUnix result).map (·.frequencyHz.toNat) =
          some (freq.toNat + audio) := by
  intro h
  have hsum := h 0 0 18100000 1501 oddDecode 1200 (by decide) (by decide) (by decide) (by decide)
    (.of rfl)
  revert hsum
  decide

end AirspyhfWsprd.Psk
