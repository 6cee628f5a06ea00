import AirspyhfWsprd.Library.CText
import AirspyhfWsprd.Library.Scatter

/-!
The interleaver of WSPR, from `wsprsim_utils.c`, and the deinterleaver of `wsprd_utils.c`.
Both go through the bytes in order and reverse the bits of each to find a place among the
162 symbols.
-/

namespace AirspyhfWsprd.Wspr

open Library

/-- `((i * 0x80200802ULL) & 0x0884422110ULL) * 0x0101010101ULL >> 32`, stored in an
`unsigned char` -/
def reversedByte (i : Nat) : Nat :=
  (((i * 0x80200802) &&& 0x0884422110) * 0x0101010101 % 2 ^ 64) >>> 32 % 256

/-- The loop of `interleave`, while it has this many values of `i` left. -/
def interleaveLoop (sym : List UInt8) : (left i p : Nat) → (tmp : List UInt8) → List UInt8
  | 0, _, _, tmp => tmp
  | left + 1, i, p, tmp =>
      if p < 162 then
        let j := reversedByte i
        if j < 162 then interleaveLoop sym left (i + 1) (p + 1) (tmp.set j (sym.getD p 0))
        else interleaveLoop sym left (i + 1) p tmp
      else tmp

/-- The loop of `deinterleave` over `i`, with `left` turns to go: symbol `p` comes from the
place of the next number below 162 among the bytes read backwards. -/
def deinterleaveLoop (sym : List UInt8) : (left i p : Nat) → (tmp : List UInt8) → List UInt8
  | 0, _, _, tmp => tmp
  | left + 1, i, p, tmp =>
      if p < 162 then
        let j := reversedByte i
        if j < 162 then deinterleaveLoop sym left (i + 1) (p + 1) (tmp.set p (sym.getD j 0))
        else deinterleaveLoop sym left (i + 1) p tmp
      else tmp

/-- `tmp` is an array on the stack that nothing clears. -/
def interleave (tmp sym : List UInt8) : List UInt8 :=
  (interleaveLoop sym 256 0 0 tmp).take 162 ++ sym.drop 162

def deinterleave (tmp sym : List UInt8) : List UInt8 :=
  (deinterleaveLoop sym 256 0 0 tmp).take 162 ++ sym.drop 162

/-- The places on the channel that the loops go through from here on, in their order. -/
def places : (left i p : Nat) → List Nat
  | 0, _, _ => []
  | left + 1, i, p =>
      if p < 162 then
        let j := reversedByte i
        if j < 162 then j :: places left (i + 1) (p + 1)
        else places left (i + 1) p
      else []

theorem places_length : (places 256 0 0).length = 162 := by decide +kernel

theorem places_perm : (places 256 0 0).Perm (List.range 162) := by
  apply List.perm_of_nodup_nodup_toFinset_eq
  all_goals decide +kernel

theorem places_lt : ∀ place ∈ places 256 0 0, place < 162 := fun _ hplace =>
  List.mem_range.mp (places_perm.mem_iff.mp hplace)

theorem interleaveLoop_eq {sym : List UInt8} (hsym : 162 ≤ sym.length) (left i p : Nat)
    (tmp : List UInt8) :
    interleaveLoop sym left i p tmp = scatter (places left i p) (sym.drop p) tmp := by
  induction left generalizing i p tmp with
  | zero => rfl
  | succ left ih =>
      simp only [interleaveLoop, places]
      split
      · split
        · rw [ih, List.drop_eq_getElem_cons (show p < sym.length by omega), scatter,
            List.getD_eq_getElem _ _ (by omega)]
        · exact ih _ _ _
      · rfl

/-- The loop of the deinterleaver reads the symbols at the places in their order and stores
them from `p` on, in front of what `tmp` held there. -/
theorem deinterleaveLoop_eq (sym : List UInt8) (left i p : Nat) {tmp : List UInt8}
    (htmp : tmp.length = 162) (hp : p ≤ 162) :
    deinterleaveLoop sym left i p tmp =
      tmp.take p ++ gather 0 (places left i p) sym ++
        tmp.drop (p + (places left i p).length) := by
  induction left generalizing i p tmp with
  | zero => simp [deinterleaveLoop, places, gather]
  | succ left ih =>
      simp only [deinterleaveLoop, places]
      split
      · next hlt =>
          split
          · have htake : (tmp.set p (sym.getD (reversedByte i) 0)).take (p + 1) =
                tmp.take p ++ [sym.getD (reversedByte i) 0] := by
              rw [List.take_succ_eq_append_getElem (by rw [List.length_set]; omega),
                List.getElem_set_self, List.take_set_of_le le_rfl]
            rw [ih _ _ (by rw [List.length_set, htmp]) hlt, htake, List.drop_set_of_lt (by omega),
              List.length_cons, gather, gather, List.map_cons, List.append_assoc _ [_],
              List.singleton_append, Nat.add_assoc p 1, Nat.add_comm 1]
          · exact ih _ _ htmp hp
      · simp [gather]

theorem interleave_eq {tmp sym : List UInt8} (htmp : tmp.length = 162) (hsym : 162 ≤ sym.length) :
    interleave tmp sym = scatter (places 256 0 0) (sym.take 162) tmp ++ sym.drop 162 := by
  have htake := scatter_take (places 256 0 0) sym tmp
  rw [places_length] at htake
  rw [interleave, interleaveLoop_eq hsym, List.drop_zero, htake,
    List.take_of_length_le (by rw [scatter_length, htmp])]

theorem deinterleave_eq {tmp : List UInt8} (htmp : tmp.length = 162) (sym : List UInt8) :
    deinterleave tmp sym = gather 0 (places 256 0 0) sym ++ sym.drop 162 := by
  rw [deinterleave, deinterleaveLoop_eq sym 256 0 0 htmp (Nat.zero_le _), List.take_zero,
    List.nil_append, places_length, Nat.zero_add, List.drop_of_length_le htmp.le,
    List.append_nil, List.take_of_length_le (by rw [gather, List.length_map, places_length])]

theorem gather_take (sym : List UInt8) :
    gather 0 (places 256 0 0) (sym.take 162) = gather 0 (places 256 0 0) sym := by
  apply List.map_congr_left
  intro place hplace
  have hlt := places_lt place hplace
  rw [List.getD_eq_getElem?_getD, List.getD_eq_getElem?_getD, List.getElem?_take_of_lt hlt]

/-- The deinterleaver undoes the interleaver, whatever was on the stack. -/
theorem deinterleave_interleave {tmp tmp' sym : List UInt8} (htmp : tmp.length = 162)
    (htmp' : tmp'.length = 162) (hsym : 162 ≤ sym.length) :
    deinterleave tmp' (interleave tmp sym) = sym := by
  have hplaces : ∀ place ∈ places 256 0 0, place < tmp.length := fun place hplace => by
    rw [htmp]
    exact places_lt place hplace
  have hscatter : (scatter (places 256 0 0) (sym.take 162) tmp).length = 162 := by
    rw [scatter_length, htmp]
  rw [deinterleave_eq htmp', interleave_eq htmp hsym, ← gather_take, List.take_left' hscatter,
    List.drop_left' hscatter,
    gather_scatter 0 (places_perm.nodup_iff.mpr List.nodup_range) hplaces
      (by rw [places_length, List.length_take]; omega),
    List.take_append_drop]

/-- And the interleaver undoes the deinterleaver. -/
theorem interleave_deinterleave {tmp tmp' sym : List UInt8} (htmp : tmp.length = 162)
    (htmp' : tmp'.length = 162) (hsym : 162 ≤ sym.length) :
    interleave tmp' (deinterleave tmp sym) = sym := by
  have htake : (sym.take 162).length = 162 := List.length_take_of_le hsym
  have hgather : (gather 0 (places 256 0 0) sym).length = 162 := by
    rw [gather, List.length_map, places_length]
  rw [deinterleave_eq htmp, interleave_eq htmp' (by rw [List.length_append]; omega),
    List.take_left' hgather, List.drop_left' hgather, ← gather_take,
    scatter_gather 0 (by rw [htake]; exact places_perm) (by rw [htake, htmp']),
    List.take_append_drop]

/-- **The interleaver and the deinterleaver undo each other**: each symbol of a message has a
place of its own on the channel, and what the loops leave on their stacks plays no part. -/
theorem interleavers_inverse {tmp tmp' sym : List UInt8} (htmp : tmp.length = 162)
    (htmp' : tmp'.length = 162) (hsym : 162 ≤ sym.length) :
    deinterleave tmp' (interleave tmp sym) = sym ∧ interleave tmp' (deinterleave tmp sym) = sym :=
  ⟨deinterleave_interleave htmp htmp' hsym, interleave_deinterleave htmp htmp' hsym⟩

theorem codeword_interleavers_inverse :
    deinterleave (List.replicate 162 7) (interleave (List.replicate 162 0) (List.replicate 176 1)) =
        List.replicate 176 1 ∧
      interleave (List.replicate 162 7)
          (deinterleave (List.replicate 162 0) (List.replicate 176 1)) =
        List.replicate 176 1 :=
  have hlength : (List.replicate 176 (1 : UInt8)).length = 176 := List.length_replicate
  interleavers_inverse List.length_replicate List.length_replicate (by omega)

end AirspyhfWsprd.Wspr
