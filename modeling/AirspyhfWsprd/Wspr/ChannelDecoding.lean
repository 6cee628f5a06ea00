import AirspyhfWsprd.Wspr.FanoDecoding
import AirspyhfWsprd.Wspr.MessageRoundTrip

/-!
From the symbols of a message back to its data: what `get_wspr_channel_symbols` sends goes
through the deinterleaver and the Fano decoder as the main loop of `wsprd.c` calls them.
-/

namespace AirspyhfWsprd.Wspr

open Library

/-- The main loop from the soft symbols to the message: nothing where the data is not
decoded. `decdata` is cleared, and the decoder stores ten of its eleven bytes. -/
def decodeSymbols (heap : Nat → FanoNode) (tmp symbols : List UInt8)
    (mettab : Nat → UInt8 → Int) (delta : Int) (maxcycles : Nat) (tables : HashTables) :
    Option Unpacked :=
  let decoded := fano heap (deinterleave tmp symbols) 81 mettab delta maxcycles
  if decoded.result = 0 then some (unpk tables (decoded.data ++ [0])) else none

/-- The last byte of a message is not one of the ten that the decoder stores. -/
theorem packData_split (n : Nat) (m : Int) : packData n m = (packData n m).take 10 ++ [0] := rfl

/-- The 31 bits behind the message are zero. -/
theorem packData_tail (n : Nat) (m : Int) :
    ∀ bit ∈ (dataBits ((packData n m).take 10)).drop 50, bit = false := by
  have hzeros : ∀ q < 4, ∀ bit ∈ (dataBits [UInt8.ofNat (q * 2 ^ 6), 0, 0, 0]).drop 2,
      bit = false := by decide
  have hsplit : dataBits ((packData n m).take 10) = dataBits ((packData n m).take 6) ++
      dataBits [UInt8.ofNat ((m % 4).toNat * 2 ^ 6), 0, 0, 0] :=
    dataBits_append ((packData n m).take 6) _
  have hlength : (dataBits ((packData n m).take 6)).length = 48 := by
    rw [dataBits_length]
    rfl
  rw [hsplit, List.drop_append, hlength, List.drop_of_length_le (by omega), List.nil_append]
  exact hzeros _ (by omega)

theorem encodeBits_symbol (encstate : BitVec 64) (bits : List Bool) :
    ∀ c ∈ encodeBits encstate bits, c = 0 ∨ c = 1 := by
  have hpair : ∀ sym < 4, (UInt8.ofNat (sym >>> 1) = 0 ∨ UInt8.ofNat (sym >>> 1) = 1) ∧
      (UInt8.ofNat (sym &&& 1) = 0 ∨ UInt8.ofNat (sym &&& 1) = 1) := by decide
  induction bits generalizing encstate with
  | nil => exact fun c hc => absurd hc List.not_mem_nil
  | cons bit bits ih =>
      simp only [encodeBits, List.forall_mem_cons]
      exact ⟨(hpair _ (encodePair_lt _)).1, (hpair _ (encodePair_lt _)).2, ih _⟩

/-- The place of a symbol on the channel -/
theorem deinterleave_getD {tmp : List UInt8} (htmp : tmp.length = 162) (sym : List UInt8) {k : Nat}
    (hk : k < 162) :
    (deinterleave tmp sym).getD k 0 = sym.getD ((places 256 0 0).getD k 0) 0 ∧
      (places 256 0 0).getD k 0 < 162 := by
  have hplace : k < (places 256 0 0).length := hk.trans_eq places_length.symm
  constructor
  · have hgather : k < (gather 0 (places 256 0 0) sym).length := by
      rw [gather, List.length_map]
      exact hplace
    rw [deinterleave_eq htmp, List.getD_append _ _ _ _ hgather,
      List.getD_eq_getElem _ _ hgather, List.getD_eq_getElem _ _ hplace]
    simp only [gather, List.getElem_map]
  · rw [List.getD_eq_getElem _ _ hplace]
    exact places_lt _ (List.getElem_mem hplace)

theorem rangeMap_getD (symbol : Nat → UInt8) {count k : Nat} (hk : k < count) :
    ((List.range count).map symbol).getD k 0 = symbol k := by
  rw [List.getD_eq_getElem _ _ (by rwa [List.length_map, List.length_range]), List.getElem_map,
    List.getElem_range]

theorem channelSymbols_half {tmp data : List UInt8} {i : Nat} (hi : i < 162)
    (hbit : (interleave tmp (encode data)).getD i 0 = 0 ∨
      (interleave tmp (encode data)).getD i 0 = 1) :
    ((channelSymbols tmp data).map (· / 2)).getD i 0 = (interleave tmp (encode data)).getD i 0 := by
  have hsync : ∀ i < 162, (2 * 0 + pr3.getD i 0) / 2 = 0 ∧ (2 * 1 + pr3.getD i 0) / 2 = 1 := by
    decide +kernel
  rw [channelSymbols, List.map_map, rangeMap_getD _ hi, Function.comp_apply]
  obtain hbit | hbit := hbit
  · rw [hbit]
    exact (hsync i hi).1
  · rw [hbit]
    exact (hsync i hi).2

/-- Symbols received well on the channel are received well behind the deinterleaver. -/
theorem receivedWell_deinterleave {tmp tmp' data received : List UInt8} (htmp : tmp.length = 162)
    (htmp' : tmp'.length = 162) (hdata : data.length = 11) (hreceived : received.length = 162)
    {mettab : Nat → UInt8 → Int}
    (h : ReceivedWell mettab ((channelSymbols tmp data).map (· / 2)) received) :
    ReceivedWell mettab ((encode data).take 162) (deinterleave tmp' received) := by
  have hcode : (encode data).length = 176 := by
    rw [encode, encodeBits_length, dataBits_length, hdata]
  have hback := deinterleave_interleave htmp htmp' (show 162 ≤ (encode data).length by omega)
  apply receivedWell_of_getD
  intro j hj
  rw [List.length_take, hcode] at hj
  obtain ⟨hsymbol, hplace⟩ := deinterleave_getD htmp' received (show j < 162 by omega)
  obtain ⟨hsent, -⟩ := deinterleave_getD htmp' (interleave tmp (encode data))
    (show j < 162 by omega)
  rw [hback] at hsent
  have hbit : (encode data).getD j 0 = 0 ∨ (encode data).getD j 0 = 1 := by
    rw [List.getD_eq_getElem _ _ (by omega)]
    exact encodeBits_symbol 0 _ _ (List.getElem_mem _)
  have hhalf := channelSymbols_half hplace (by rwa [hsent] at hbit)
  have htaken : ((encode data).take 162).getD j 0 = (encode data).getD j 0 := by
    rw [List.getD_eq_getElem?_getD, List.getD_eq_getElem?_getD,
      List.getElem?_take_of_lt (by omega)]
  have hgood := h.at (show (places 256 0 0).getD j 0 <
      ((channelSymbols tmp data).map (· / 2)).length by
    rw [List.length_map, channelSymbols, List.length_map, List.length_range]
    exact hplace) (hplace.trans_eq hreceived.symm)
  rw [hhalf, ← hsent] at hgood
  rwa [htaken, hsymbol]

theorem hardError_iff (got sent : Prop) [Decidable got] [Decidable sent] :
    (if (if got then (1 : UInt8) else 0) = if sent then 1 else 0 then 0 else 1) =
      if got ↔ sent then 0 else 1 := by
  by_cases hgot : got
  · by_cases hsent : sent
    · simp [hgot, hsent]
    · simp [hgot, hsent]
  · by_cases hsent : sent
    · simp [hgot, hsent]
    · simp [hgot, hsent]

/-- The hard errors are the places on the channel at which the received symbol is on the other
side of the data bit that was sent there; the deinterleaver only changes their order. -/
theorem countHardErrors_eq {tmp tmp' : List UInt8} (htmp : tmp.length = 162)
    (htmp' : tmp'.length = 162) (received channelSymbols : List UInt8) :
    countHardErrors tmp (deinterleave tmp' received) channelSymbols =
      ((List.range 162).map fun i =>
        if 127 < received.getD i 0 ↔ 2 ≤ channelSymbols.getD i 0 then 0 else 1).sum := by
  have hplaces : (List.range 162).map (fun k => (places 256 0 0).getD k 0) = places 256 0 0 := by
    apply List.ext_getElem
    · rw [List.length_map, List.length_range, places_length]
    · intro k _ hk
      rw [List.getElem_map, List.getElem_range, List.getD_eq_getElem _ _ hk]
  have hsides : ∀ k ∈ List.range 162,
      (if (if 127 < (deinterleave tmp' received).getD k 0 then 1 else 0) =
          (deinterleave tmp ((List.range 162).map fun i =>
            if 2 ≤ channelSymbols.getD i 0 then (1 : UInt8) else 0)).getD k 0 then 0 else 1) =
        if 127 < received.getD ((places 256 0 0).getD k 0) 0 ↔
          2 ≤ channelSymbols.getD ((places 256 0 0).getD k 0) 0 then 0 else 1 := by
    intro k hk
    obtain ⟨hreceived, hplace⟩ := deinterleave_getD htmp' received (List.mem_range.mp hk)
    obtain ⟨hsent, -⟩ := deinterleave_getD htmp ((List.range 162).map fun i =>
      if 2 ≤ channelSymbols.getD i 0 then (1 : UInt8) else 0) (List.mem_range.mp hk)
    rw [hreceived, hsent, rangeMap_getD _ hplace, hardError_iff]
  rw [countHardErrors, List.map_congr_left hsides]
  refine (congrArg List.sum ?_).trans (places_perm.map fun i =>
    if 127 < received.getD i 0 ↔ 2 ≤ channelSymbols.getD i 0 then 0 else 1).sum_eq
  conv_rhs => rw [← hplaces]
  rw [List.map_map]
  rfl

/-- **A message that is received well is decoded to the data it was sent as.** Whatever
message `get_wspr_channel_symbols` accepts, when each of the 162 soft symbols is on the side
of the sent data bit, the main loop unpacks the data of the sender. The decoder needs a
positive threshold step and a limit of more cycles than the code has bits. -/
theorem received_as_sent {tmp tmp' : List UInt8} {sender : HashTables} {rawmessage : CString}
    {data symbols : List UInt8} {sender' : HashTables} (htmp : tmp.length = 162)
    (htmp' : tmp'.length = 162)
    (hsent : getWsprChannelSymbols tmp sender rawmessage = .sent data symbols sender')
    {received : List UInt8} (hreceived : received.length = 162) {mettab : Nat → UInt8 → Int}
    (hgood : ReceivedWell mettab (symbols.map (· / 2)) received) (heap : Nat → FanoNode)
    {delta : Int} (hdelta : 0 < delta) {maxcycles : Nat} (hcycles : 81 < maxcycles * 81 % 2 ^ 32)
    (receiver : HashTables) :
    decodeSymbols heap tmp' received mettab delta maxcycles receiver =
      some (unpk receiver data) := by
  unfold getWsprChannelSymbols at hsent
  split at hsent
  · cases hsent
  · cases hsent
  · next n m _ =>
      cases hsent
      have hcode : codeOf ((packData n m).take 10) 81 = (encode (packData n m)).take 162 := rfl
      have hwell := receivedWell_deinterleave htmp htmp' (packData_length n m) hreceived hgood
      rw [← hcode] at hwell
      have hsymbols : 2 * 81 ≤ (deinterleave tmp' received).length := by
        rw [deinterleave_eq htmp', List.length_append, gather, List.length_map, places_length]
        omega
      obtain ⟨hresult, hdata, -⟩ := fano_receivedWell heap (by decide) hdelta hsymbols rfl
        (packData_tail n m) hwell hcycles
      simp only [decodeSymbols, hresult, hdata]
      rw [if_pos trivial, ← packData_split n m]

/-- From the text of one station to the text of another -/
theorem received_as_sent_K1ABC :
    decodeSymbols clearedHeap (List.replicate 162 0)
        ((channelSymbols (List.replicate 162 0)
          (packData (packCall (bytes "K1ABC")) (packGrid4Power (gridCodes (bytes "FN42")) 37))).map
            (· / 2)) hardMetric 60 10000 HashTables.empty =
      some (unpk HashTables.empty
        (packData (packCall (bytes "K1ABC")) (packGrid4Power (gridCodes (bytes "FN42")) 37))) :=
  have hgrid : PlainGrid (bytes "FN42") :=
    ⟨70, 78, 52, 50, rfl, by decide, by decide, by decide, by decide⟩
  have hmessage : packMessage (WsprMessage.type1 (bytes "K1ABC") (bytes "FN42") 37).callLocPow =
      .packed (packCall (bytes "K1ABC")) (packGrid4Power (gridCodes (bytes "FN42")) 37) := by
    rw [type1_text K1ABC_plain hgrid ⟨by decide, by decide⟩,
      packMessage_type1 K1ABC_plain (by decide) hgrid]
    rfl
  received_as_sent (List.length_replicate ..) (List.length_replicate ..)
    (getWsprChannelSymbols_packed _ HashTables.empty hmessage)
    (by rw [List.length_map, channelSymbols, List.length_map, List.length_range])
    (receivedWell_hard _) clearedHeap (by decide) (by decide) HashTables.empty

end AirspyhfWsprd.Wspr
