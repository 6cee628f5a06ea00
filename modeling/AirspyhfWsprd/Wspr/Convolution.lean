import AirspyhfWsprd.Library.CText
import Mathlib.Algebra.BigOperators.Group.List.Basic

/-!
The convolutional code of WSPR, from `fano.c` and the `ENCODE` macro of `fano.h`: a shift
register of 32 bits with two parity taps, which gives a pair of channel symbols for each
bit of data.
-/

namespace AirspyhfWsprd.Wspr

/-- The Layland-Lushbaugh code -/
def poly1 : BitVec 64 := 0xf2d05351

def poly2 : BitVec 64 := 0xe4613c47

/-- `Partab` of `tab.c`, the parity of a byte -/
def partab : List Nat :=
  [0, 1, 1, 0, 1, 0, 0, 1,
   1, 0, 0, 1, 0, 1, 1, 0,
   1, 0, 0, 1, 0, 1, 1, 0,
   0, 1, 1, 0, 1, 0, 0, 1,
   1, 0, 0, 1, 0, 1, 1, 0,
   0, 1, 1, 0, 1, 0, 0, 1,
   0, 1, 1, 0, 1, 0, 0, 1,
   1, 0, 0, 1, 0, 1, 1, 0,
   1, 0, 0, 1, 0, 1, 1, 0,
   0, 1, 1, 0, 1, 0, 0, 1,
   0, 1, 1, 0, 1, 0, 0, 1,
   1, 0, 0, 1, 0, 1, 1, 0,
   0, 1, 1, 0, 1, 0, 0, 1,
   1, 0, 0, 1, 0, 1, 1, 0,
   1, 0, 0, 1, 0, 1, 1, 0,
   0, 1, 1, 0, 1, 0, 0, 1,
   1, 0, 0, 1, 0, 1, 1, 0,
   0, 1, 1, 0, 1, 0, 0, 1,
   0, 1, 1, 0, 1, 0, 0, 1,
   1, 0, 0, 1, 0, 1, 1, 0,
   0, 1, 1, 0, 1, 0, 0, 1,
   1, 0, 0, 1, 0, 1, 1, 0,
   1, 0, 0, 1, 0, 1, 1, 0,
   0, 1, 1, 0, 1, 0, 0, 1,
   0, 1, 1, 0, 1, 0, 0, 1,
   1, 0, 0, 1, 0, 1, 1, 0,
   1, 0, 0, 1, 0, 1, 1, 0,
   0, 1, 1, 0, 1, 0, 0, 1,
   1, 0, 0, 1, 0, 1, 1, 0,
   0, 1, 1, 0, 1, 0, 0, 1,
   0, 1, 1, 0, 1, 0, 0, 1,
   1, 0, 0, 1, 0, 1, 1, 0]

/-- Folding 32 bits into a byte of the same parity. -/
def foldByte (x : BitVec 64) : BitVec 64 :=
  let tmp := x ^^^ x >>> 16
  (tmp ^^^ tmp >>> 8) &&& 0xff

/-- `ENCODE(sym, encstate)`: the symbol of the first polynomial in the 2-bit, the symbol of
the second one in the 1-bit -/
def encodePair (encstate : BitVec 64) : Nat :=
  partab.getD (foldByte (encstate &&& poly1)).toNat 0 <<< 1 |||
    partab.getD (foldByte (encstate &&& poly2)).toNat 0

def shiftIn (encstate : BitVec 64) (bit : Bool) : BitVec 64 :=
  encstate <<< 1 ||| BitVec.setWidth 64 (BitVec.ofBool bit)

/-- The bits of the data, each byte high bit first. -/
def dataBits (data : List UInt8) : List Bool :=
  data.flatMap fun byte => (List.range 8).map fun i => byte.toNat.testBit (7 - i)

/-- The loops of `encode` over the bits of the data. -/
def encodeBits (encstate : BitVec 64) : List Bool → List UInt8
  | [] => []
  | bit :: bits =>
      let encstate := shiftIn encstate bit
      let sym := encodePair encstate
      UInt8.ofNat (sym >>> 1) :: UInt8.ofNat (sym &&& 1) :: encodeBits encstate bits

def encode (data : List UInt8) : List UInt8 := encodeBits 0 (dataBits data)

/-- Both polynomials are odd, so the bit shifted in last turns both symbols of the pair: it
changes the parity of a byte. -/
theorem partab_flip : ∀ index < 256,
    partab.getD index 0 ≤ 1 ∧ partab.getD (index ^^^ 1) 0 = 1 - partab.getD index 0 := by
  decide +kernel

theorem and_xor_right (x y mask : BitVec 64) :
    (x ^^^ y) &&& mask = (x &&& mask) ^^^ (y &&& mask) := by
  ext i
  simp [Bool.and_xor_distrib_right]

theorem foldByte_xor (x y : BitVec 64) : foldByte (x ^^^ y) = foldByte x ^^^ foldByte y := by
  simp only [foldByte, BitVec.ushiftRight_xor_distrib, and_xor_right]
  ac_rfl

theorem foldByte_lt (x : BitVec 64) : (foldByte x).toNat < 256 := by
  simp only [foldByte, BitVec.toNat_and]
  exact Nat.lt_of_le_of_lt Nat.and_le_right (by decide)

theorem parity_flip {poly : BitVec 64} (hodd : foldByte (1 &&& poly) = 1) (encstate : BitVec 64) :
    partab.getD (foldByte ((encstate ^^^ 1) &&& poly)).toNat 0 =
      1 - partab.getD (foldByte (encstate &&& poly)).toNat 0 := by
  rw [and_xor_right, foldByte_xor, hodd, BitVec.toNat_xor]
  exact (partab_flip _ (foldByte_lt _)).2

theorem parity_le (poly encstate : BitVec 64) :
    partab.getD (foldByte (encstate &&& poly)).toNat 0 ≤ 1 :=
  (partab_flip _ (foldByte_lt _)).1

theorem pair_flip : ∀ first < 2, ∀ second < 2, first <<< 1 ||| second < 4 ∧
    (1 - first) <<< 1 ||| 1 - second = 3 ^^^ (first <<< 1 ||| second) := by
  decide

theorem encodePair_lt (encstate : BitVec 64) : encodePair encstate < 4 :=
  (pair_flip _ (Nat.lt_succ_of_le (parity_le _ _)) _ (Nat.lt_succ_of_le (parity_le _ _))).1

/-- "we assume that both polynomials are odd, providing complementary pairs of branch
symbols" -/
theorem encodePair_flip (encstate : BitVec 64) :
    encodePair (encstate ^^^ 1) = 3 ^^^ encodePair encstate := by
  have hflip := pair_flip _ (Nat.lt_succ_of_le (parity_le poly1 encstate)) _
    (Nat.lt_succ_of_le (parity_le poly2 encstate))
  rw [encodePair, parity_flip (by decide), parity_flip (by decide)]
  exact hflip.2

theorem shiftIn_false (encstate : BitVec 64) : shiftIn encstate false = encstate <<< 1 := by
  simp [shiftIn]

theorem shiftIn_flip (encstate : BitVec 64) (bit : Bool) :
    shiftIn encstate bit ^^^ 1 = shiftIn encstate (!bit) := by
  ext i h
  cases i with
  | zero => cases bit <;> simp [shiftIn]
  | succ i => cases bit <;> simp [shiftIn]

/-- `np->encstate++` sets the low bit behind a shift. -/
theorem shiftIn_false_add_one (encstate : BitVec 64) :
    shiftIn encstate false + 1 = shiftIn encstate true := by
  rw [shiftIn_false, BitVec.add_eq_or_of_and_eq_zero]
  · rfl
  · ext i h
    by_cases hlow : i = 0
    · subst hlow
      simp
    · simp [hlow]

theorem shiftIn_getLsbD_zero (encstate : BitVec 64) (bit : Bool) :
    (shiftIn encstate bit).getLsbD 0 = bit := by
  cases bit <;> simp [shiftIn]

theorem shiftIn_getLsbD_succ (encstate : BitVec 64) (bit : Bool) {i : Nat} (hi : i < 63) :
    (shiftIn encstate bit).getLsbD (i + 1) = encstate.getLsbD i := by
  cases bit <;> simp [shiftIn] <;> omega

/-- The encoder state behind these bits -/
def stateAfter (bits : List Bool) : BitVec 64 := bits.foldl shiftIn 0

theorem stateAfter_concat (bits : List Bool) (bit : Bool) :
    stateAfter (bits ++ [bit]) = shiftIn (stateAfter bits) bit := by
  simp only [stateAfter, List.foldl_append, List.foldl_cons, List.foldl_nil]

theorem encodeBits_append (encstate : BitVec 64) (bits more : List Bool) :
    encodeBits encstate (bits ++ more) =
      encodeBits encstate bits ++ encodeBits (bits.foldl shiftIn encstate) more := by
  induction bits generalizing encstate with
  | nil => rfl
  | cons bit bits ih =>
      simp only [List.cons_append, encodeBits, List.foldl_cons, ih]

@[simp] theorem encodeBits_length (encstate : BitVec 64) (bits : List Bool) :
    (encodeBits encstate bits).length = 2 * bits.length := by
  induction bits generalizing encstate with
  | nil => rfl
  | cons bit bits ih =>
      simp only [encodeBits, List.length_cons, ih]
      omega

theorem encodeBits_concat (bits : List Bool) (bit : Bool) :
    encodeBits 0 (bits ++ [bit]) = encodeBits 0 bits ++
      [UInt8.ofNat (encodePair (stateAfter (bits ++ [bit])) >>> 1),
        UInt8.ofNat (encodePair (stateAfter (bits ++ [bit])) &&& 1)] := by
  rw [encodeBits_append, stateAfter_concat]
  rfl

@[simp] theorem dataBits_length (data : List UInt8) : (dataBits data).length = 8 * data.length := by
  simp [dataBits, List.length_flatMap, Nat.mul_comm]

end AirspyhfWsprd.Wspr
