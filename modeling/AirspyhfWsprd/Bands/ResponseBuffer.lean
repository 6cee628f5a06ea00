import Mathlib.Tactic.Common
import AirspyhfWsprd.Library.CText

/-!
The buffer that a download of band advice is collected in. The body arrives in chunks as
the network delivers it; one byte of the buffer is kept for the terminator.
-/

namespace AirspyhfWsprd.Bands

open Library

/-- `SIZE_MAX` -/
def sizeMax : UInt64 := 18446744073709551615

/-- `struct response_buffer`; no data stands for a null pointer. -/
structure ResponseBuffer where
  data : Option (List UInt8)
  length : UInt64
  capacity : UInt64
deriving DecidableEq

/-- What one call hands over: `count` elements of `size` bytes. -/
structure Chunk where
  size : UInt64
  count : UInt64
  contents : List UInt8
  whole : contents.length = size.toNat * count.toNat

/-- `memcpy(data + offset, contents, ...)` -/
def overwrite (data : List UInt8) (offset : Nat) (contents : List UInt8) : List UInt8 :=
  data.take offset ++ contents ++ data.drop (offset + contents.length)

/-- `receive_response`: the number of bytes it returns and the buffer behind it. Any number but
that of the chunk's bytes tells libcurl to give up the transfer. -/
def receiveResponse (response : ResponseBuffer) (chunk : Chunk) : UInt64 × ResponseBuffer :=
  if chunk.size ≠ 0 ∧ sizeMax / chunk.size < chunk.count then (0, response)
  else
    let bytes := chunk.size * chunk.count
    match response.data with
    | none => (0, response)
    | some data =>
        if response.capacity = 0 ∨ response.capacity ≤ response.length ∨
            response.capacity - response.length - 1 < bytes then (0, response)
        else
          let length := response.length + bytes
          (bytes, {response with
            data := some ((overwrite data response.length.toNat chunk.contents).set
              length.toNat 0)
            length := length})

/-- The caller goes on with the next chunk while each one is taken whole. -/
def receiveAll (response : ResponseBuffer) : List Chunk → Bool × ResponseBuffer
  | [] => (true, response)
  | chunk :: chunks =>
      let (taken, response) := receiveResponse response chunk
      if taken.toNat = chunk.contents.length then receiveAll response chunks
      else (false, response)

def body (chunks : List Chunk) : List UInt8 := chunks.flatMap (·.contents)

/-- An empty text in a buffer of this capacity. -/
structure EmptyResponse (response : ResponseBuffer) (data : List UInt8) : Prop where
  data_eq : response.data = some data
  capacity : data.length = response.capacity.toNat
  nonempty : 1 ≤ response.capacity.toNat
  length : response.length = 0
  terminated : data.head? = some 0

/-- The buffer holds this text and its terminator; the rest is as it was. -/
structure Holds (start : ResponseBuffer) (data text : List UInt8) (response : ResponseBuffer) :
    Prop where
  capacity : response.capacity = start.capacity
  length : response.length.toNat = text.length
  fits : text.length < start.capacity.toNat
  data_eq : response.data = some (text ++ 0 :: data.drop (text.length + 1))

variable {start response : ResponseBuffer} {data text : List UInt8}

theorem Holds.unique {other : ResponseBuffer} (h : Holds start data text response)
    (hother : Holds start data text other) : response = other := by
  obtain ⟨contents, length, capacity⟩ := response
  obtain ⟨otherContents, otherLength, otherCapacity⟩ := other
  obtain rfl : capacity = otherCapacity := h.capacity.trans hother.capacity.symm
  obtain rfl : length = otherLength :=
    UInt64.toNat_inj.mp (h.length.trans hother.length.symm)
  obtain rfl : contents = otherContents := h.data_eq.trans hother.data_eq.symm
  rfl

theorem EmptyResponse.holds (h : EmptyResponse start data) : Holds start data [] start := by
  refine ⟨rfl, ?_, h.nonempty, ?_⟩
  · rw [h.length]
    rfl
  · obtain ⟨rest, hrest⟩ := List.head?_eq_some_iff.mp h.terminated
    rw [h.data_eq, hrest]
    rfl

/-- The product of a chunk that the first test lets through is exact. -/
theorem chunk_bytes {chunk : Chunk}
    (h : ¬ (chunk.size ≠ 0 ∧ sizeMax / chunk.size < chunk.count)) :
    (chunk.size * chunk.count).toNat = chunk.contents.length := by
  have hproduct : chunk.size.toNat * chunk.count.toNat < 2 ^ 64 := by
    rcases Decidable.em (chunk.size = 0) with hzero | hpos
    · rw [hzero, UInt64.toNat_zero, Nat.zero_mul]
      decide
    · have hle : chunk.count.toNat ≤ sizeMax.toNat / chunk.size.toNat := by
        rw [← UInt64.toNat_div, ← UInt64.le_iff_toNat_le]
        exact UInt64.not_lt.mp fun hlt => h ⟨hpos, hlt⟩
      have hmax : chunk.size.toNat * (sizeMax.toNat / chunk.size.toNat) ≤ sizeMax.toNat :=
        Nat.mul_div_le _ _
      have hbound := Nat.mul_le_mul_left chunk.size.toNat hle
      have hsize : sizeMax.toNat < 2 ^ 64 := sizeMax.toNat_lt
      omega
  rw [UInt64.toNat_mul, chunk.whole, Nat.mod_eq_of_lt hproduct]

/-- A chunk that the first test refuses is longer than any buffer. -/
theorem chunk_overflows {chunk : Chunk}
    (h : chunk.size ≠ 0 ∧ sizeMax / chunk.size < chunk.count) :
    2 ^ 64 ≤ chunk.contents.length := by
  obtain ⟨hpos, hlt⟩ := h
  have hsize : 0 < chunk.size.toNat := by
    apply Nat.pos_of_ne_zero
    intro hzero
    exact hpos (UInt64.toNat_inj.mp hzero)
  rw [UInt64.lt_iff_toNat_lt, UInt64.toNat_div] at hlt
  have hmax : sizeMax.toNat = 2 ^ 64 - 1 := rfl
  have hover := (Nat.div_lt_iff_lt_mul hsize).mp hlt
  rw [chunk.whole, Nat.mul_comm]
  omega

/-- A chunk that fits is stored behind the text, and the terminator behind the chunk; what
stood behind that stays. -/
theorem overwrite_set {rest contents : List UInt8} {length : Nat}
    (hlength : length = text.length + contents.length)
    (hroom : contents.length ≤ rest.length) :
    (overwrite (text ++ 0 :: rest) text.length contents).set length 0 =
      text ++ contents ++ 0 :: rest.drop contents.length := by
  have htail : (text ++ 0 :: rest).drop (text.length + contents.length) =
      (0 :: rest).drop contents.length := by
    rw [List.drop_append, Nat.add_sub_cancel_left, List.drop_eq_nil_of_le (by omega),
      List.nil_append]
  have hcons : ∃ byte, (0 :: rest).drop contents.length = byte :: rest.drop contents.length := by
    have hlt : contents.length < (0 :: rest).length := Nat.lt_succ_of_le hroom
    rw [List.drop_eq_getElem_cons hlt]
    exact ⟨_, rfl⟩
  obtain ⟨byte, hbyte⟩ := hcons
  rw [overwrite, List.take_left, htail, hbyte, hlength, ← List.length_append,
    List.set_append_right _ _ (Nat.le_refl _), Nat.sub_self]
  rfl

/-- The test for room refuses exactly the chunks that do not fit with a terminator. -/
theorem Holds.room_iff (h : Holds start data text response) {bytes : UInt64} :
    (response.capacity = 0 ∨ response.capacity ≤ response.length ∨
        response.capacity - response.length - 1 < bytes) ↔
      start.capacity.toNat ≤ text.length + bytes.toNat := by
  obtain ⟨hcapacity, hlength, hfits, -⟩ := h
  have hle : response.length ≤ response.capacity := by
    rw [UInt64.le_iff_toNat_le, hcapacity, hlength]
    omega
  have hsub := UInt64.toNat_sub_of_le _ _ hle
  have hone : 1 ≤ response.capacity - response.length := by
    rw [UInt64.le_iff_toNat_le, hsub, hcapacity, hlength, UInt64.toNat_one]
    omega
  have hleft : (response.capacity - response.length - 1).toNat =
      start.capacity.toNat - text.length - 1 := by
    rw [UInt64.toNat_sub_of_le _ _ hone, hsub, hcapacity, hlength]
    rfl
  rw [UInt64.lt_iff_toNat_lt, hleft, UInt64.le_iff_toNat_le, hcapacity, hlength,
    ← UInt64.toNat_inj, UInt64.toNat_zero]
  omega

/-- A chunk that would leave no byte for the terminator is refused: the callback reports
another length than the chunk's, which ends the transfer. -/
theorem receiveResponse_refuses (h : Holds start data text response) {chunk : Chunk}
    (hfull : start.capacity.toNat ≤ (text ++ chunk.contents).length) :
    (receiveResponse response chunk).1.toNat ≠ chunk.contents.length := by
  have hfits := h.fits
  have hbound := start.capacity.toNat_lt
  rw [List.length_append] at hfull
  rw [receiveResponse]
  split
  · rename_i hoverflow
    have hlong := chunk_overflows hoverflow
    rw [UInt64.toNat_zero]
    omega
  · rename_i hexact
    have hrefused := h.room_iff.mpr ((chunk_bytes hexact).symm ▸ hfull)
    simp only [h.data_eq, if_pos hrefused]
    rw [UInt64.toNat_zero]
    omega

/-- A chunk that fits is taken as a whole, and the buffer holds the text with the chunk behind
it, terminated. -/
theorem receiveResponse_takes (h : Holds start data text response) {chunk : Chunk}
    (hdata : data.length = start.capacity.toNat)
    (hroom : (text ++ chunk.contents).length < start.capacity.toNat) :
    (receiveResponse response chunk).1.toNat = chunk.contents.length ∧
      Holds start data (text ++ chunk.contents) (receiveResponse response chunk).2 := by
  have hbound := start.capacity.toNat_lt
  rw [List.length_append] at hroom
  have hexact : ¬ (chunk.size ≠ 0 ∧ sizeMax / chunk.size < chunk.count) := by
    intro hoverflow
    have hlong := chunk_overflows hoverflow
    omega
  have hbytes := chunk_bytes hexact
  have haccepted := mt h.room_iff.mp (by rw [hbytes]; exact Nat.not_le.mpr hroom)
  have hend : (response.length + chunk.size * chunk.count).toNat =
      text.length + chunk.contents.length := by
    rw [UInt64.toNat_add, h.length, hbytes]
    exact Nat.mod_eq_of_lt (by omega)
  rw [receiveResponse, if_neg hexact]
  simp only [h.data_eq, if_neg haccepted]
  refine ⟨hbytes, h.capacity, ?_, ?_, ?_⟩
  · rw [hend, List.length_append]
  · rw [List.length_append]
    exact hroom
  · rw [h.length, overwrite_set hend (by rw [List.length_drop]; omega), List.drop_drop,
      List.length_append, Nat.add_right_comm]

/-- What is received of chunks that fit, and that no chunk too many is taken. -/
theorem receiveAll_holds (hdata : data.length = start.capacity.toNat) (chunks : List Chunk)
    (h : Holds start data text response) :
    if (text ++ body chunks).length < start.capacity.toNat then
      (receiveAll response chunks).1 = true ∧
        Holds start data (text ++ body chunks) (receiveAll response chunks).2
    else (receiveAll response chunks).1 = false := by
  induction chunks generalizing text response with
  | nil =>
      rw [body, List.flatMap_nil, List.append_nil, if_pos h.fits]
      exact ⟨rfl, h⟩
  | cons chunk chunks ih =>
      have hbody : text ++ body (chunk :: chunks) = text ++ chunk.contents ++ body chunks := by
        rw [body, List.flatMap_cons, ← List.append_assoc, body]
      rw [hbody, receiveAll]
      by_cases hroom : (text ++ chunk.contents).length < start.capacity.toNat
      · obtain ⟨htaken, hholds⟩ := receiveResponse_takes h hdata hroom
        simp only [htaken, if_true]
        exact ih hholds
      · have hrefused := receiveResponse_refuses h (Nat.not_lt.mp hroom)
        have hlong : ¬ (text ++ chunk.contents ++ body chunks).length < start.capacity.toNat := by
          rw [List.length_append]
          omega
        simp only [hrefused, hlong, if_false]

/-- After the chunks taken so far the buffer holds them as one text, all of a body is taken
exactly when it is shorter than the capacity, and its split into chunks does not matter. A
chunk is refused as a whole, and what was held before it stays. -/
theorem response_independent_of_chunks (h : EmptyResponse start data) (chunks : List Chunk) :
    (∀ before after, chunks = before ++ after → (receiveAll start before).1 = true →
      Holds start data (body before) (receiveAll start before).2) ∧
    ((receiveAll start chunks).1 = true ↔ (body chunks).length < start.capacity.toNat) ∧
    ∀ others, body others = body chunks →
      (receiveAll start others).1 = (receiveAll start chunks).1 ∧
        ((receiveAll start chunks).1 = true →
          (receiveAll start others).2 = (receiveAll start chunks).2) := by
  have hreceived (others : List Chunk) := receiveAll_holds h.capacity others h.holds
  simp only [List.nil_append] at hreceived
  refine ⟨?_, ?_, ?_⟩
  · intro before after _ haccepted
    have hbefore := hreceived before
    split at hbefore
    · exact hbefore.2
    · rw [hbefore] at haccepted
      cases haccepted
  · have hall := hreceived chunks
    split at hall
    · rename_i hfits
      exact iff_of_true hall.1 hfits
    · rename_i hlong
      exact iff_of_false (by simp [hall]) hlong
  · intro others hsame
    have hall := hreceived chunks
    have hothers := hreceived others
    rw [hsame] at hothers
    split at hall
    · rename_i hfits
      rw [if_pos hfits] at hothers
      refine ⟨hothers.1.trans hall.1.symm, fun _ => ?_⟩
      exact hothers.2.unique hall.2
    · rename_i hlong
      rw [if_neg hlong] at hothers
      refine ⟨hothers.trans hall.symm, fun haccepted => ?_⟩
      rw [hall] at haccepted
      cases haccepted

def exampleBuffer : ResponseBuffer := ⟨some (List.replicate 4 0), 0, 4⟩

/-- `7\t` and `1` fit into four bytes. -/
theorem twoChunks_received :
    (receiveAll exampleBuffer
      [⟨1, 2, bytes "7\t", rfl⟩, ⟨1, 1, bytes "1", rfl⟩]).1 = true := by
  have hstart : EmptyResponse exampleBuffer (List.replicate 4 0) :=
    ⟨rfl, rfl, by decide, rfl, rfl⟩
  exact (response_independent_of_chunks hstart _).2.1.mpr (by decide)

end AirspyhfWsprd.Bands
