import AirspyhfWsprd.Library.PrintedText
import Mathlib.Data.List.GetD

/-!
The 50 bits of a WSPR message: the packing of a callsign, a locator and a power of
`wsprsim_utils.c`, and the unpacking of `wsprd_utils.c`.
-/

namespace AirspyhfWsprd.Wspr

open Library

/-- `get_callsign_character_code` -/
def callsignCharacterCode (ch : UInt8) : Int :=
  if 48 ≤ ch ∧ ch ≤ 57 then ch.toNat - 48
  else if ch = 32 then 36
  else if 65 ≤ ch ∧ ch ≤ 90 then ch.toNat - 55
  else -1

/-- `get_locator_character_code` -/
def locatorCharacterCode (ch : UInt8) : Int :=
  if 48 ≤ ch ∧ ch ≤ 57 then ch.toNat - 48
  else if ch = 32 then 36
  else if 65 ≤ ch ∧ ch ≤ 82 then ch.toNat - 65
  else -1

/-- The six characters of `pack_call`, with a digit in the third place. -/
def call6 (callsign : CString) : CString :=
  if isdigit (callsign.getD 2 0) then padRight 6 callsign
  else if isdigit (callsign.getD 1 0) then (padRight 6 (32 :: callsign)).take 6
  else List.replicate 6 32

/-- `pack_call`, in 64 bits without a sign: the six characters as digits to the bases 36, 10
and three times 27. A character without a code counts as -1, and a number below zero wraps
around. -/
def packCall (callsign : CString) : Nat :=
  if 6 < callsign.length then 0
  else
    let code i := callsignCharacterCode ((call6 callsign).getD i 0)
    let n := code 0
    let n := n * 36 + code 1
    let n := n * 10 + code 2
    let n := n * 27 + code 3 - 10
    let n := n * 27 + code 4 - 10
    let n := n * 27 + code 5 - 10
    (n % 2 ^ 64).toNat

/-- `pack_grid4_power`, of the codes of the locator -/
def packGrid4Power (grid4 : List Int) (power : Int) : Int :=
  let m := (179 - 10 * grid4.getD 0 0 - grid4.getD 2 0) * 180 + 10 * grid4.getD 1 0 +
    grid4.getD 3 0
  m * 128 + power + 64

/-- "pack 50 bits + 31 (0) tail bits into 11 bytes" -/
def packData (n : Nat) (m : Int) : List UInt8 :=
  [UInt8.ofNat (n / 2 ^ 20 % 256),
   UInt8.ofNat (n / 2 ^ 12 % 256),
   UInt8.ofNat (n / 2 ^ 4 % 256),
   UInt8.ofNat (n % 16 * 16 + (m / 2 ^ 18 % 16).toNat),
   UInt8.ofNat (m / 2 ^ 10 % 256).toNat,
   UInt8.ofNat (m / 2 ^ 2 % 256).toNat,
   UInt8.ofNat ((m % 4).toNat * 2 ^ 6),
   0, 0, 0, 0]

/-- `unpack50`: the 28 bits of the callsign and the 22 bits of the rest -/
def unpack50 (dat : List UInt8) : Nat × Nat :=
  let byte i := (dat.getD i 0).toNat
  let n1 := byte 0 * 2 ^ 20 + byte 1 * 2 ^ 12 + byte 2 * 2 ^ 4 + byte 3 / 2 ^ 4 % 16
  let n2 := byte 3 % 16 * 2 ^ 18 + byte 4 * 2 ^ 10 + byte 5 * 2 ^ 2 + byte 6 / 2 ^ 6 % 4
  (n1, n2)

/-- The table of characters of `unpackcall` and `unpackgrid` -/
def callChar (i : Nat) : UInt8 := (bytes "0123456789ABCDEFGHIJKLMNOPQRSTUVWXYZ ").getD i 0

/-- What `unpackcall` makes of the six characters: blanks are removed in front, and a
terminator is put over each of the others. -/
def callArray (tmp : CString) : List UInt8 :=
  let i := ((tmp.take 5).takeWhile (· = 32)).length
  (padRight 6 (tmp.drop i)).map fun c => if c = 32 then 0 else c

/-- `unpackcall`: the array of the callsign, or nothing where it returns zero. The digits are
taken off from the last one on, in the bases of the packing. -/
def unpackcall (ncall : Nat) : Option (List UInt8) :=
  if ncall < 262177560 then
    let n := ncall
    let tmp5 := callChar (n % 27 + 10)
    let n := n / 27
    let tmp4 := callChar (n % 27 + 10)
    let n := n / 27
    let tmp3 := callChar (n % 27 + 10)
    let n := n / 27
    let tmp2 := callChar (n % 10)
    let n := n / 10
    let tmp1 := callChar (n % 36)
    let n := n / 36
    let tmp0 := callChar n
    some (callArray [tmp0, tmp1, tmp2, tmp3, tmp4, tmp5])
  else none

/-- `unpackgrid`. The values in `double` are integers, and the divisions have no rest. -/
def unpackgrid (ngrid : Nat) : Option CString :=
  let ngrid := ngrid / 2 ^ 7
  if ngrid < 32400 then
    let dlat : Int := (ngrid % 180 : Nat) - 90
    let dlong : Int := (ngrid / 180 : Nat) * 2 - 180 + 2
    let dlong := if dlong < -180 then dlong + 360 else dlong
    let dlong := if dlong > 180 then dlong + 360 else dlong
    let nlong := 60 * (180 - dlong) / 5
    let n1 := nlong / 240
    let n2 := (nlong - 240 * n1) / 24
    let nlat := 60 * (dlat + 90) * 2 / 5
    let n1' := nlat / 240
    let n2' := (nlat - 240 * n1') / 24
    some [callChar (10 + n1).toNat, callChar (10 + n1').toNat, callChar n2.toNat,
      callChar n2'.toNat]
  else none

/-- The bytes hold 28 bits of the one number and 22 bits of the other. -/
theorem unpack50_packData (n : Nat) (m : Int) :
    unpack50 (packData n m) = (n % 2 ^ 28, (m % 2 ^ 22).toNat) := by
  simp only [unpack50, packData, List.getD_cons_zero, List.getD_cons_succ, UInt8.toNat_ofNat']
  apply Prod.ext
  · simp only
    omega
  · simp only
    omega

theorem packData_length (n : Nat) (m : Int) : (packData n m).length = 11 := rfl

/-- A capital letter or a digit -/
def isCallChar (c : UInt8) : Bool := isupper c || isdigit c

/-- A callsign that fits the six places: one or two characters, a digit, and up to three
letters. -/
structure PlainCall (call : CString) : Prop where
  split : ∃ front area suffix, call = front ++ area :: suffix ∧
    (front.length = 1 ∨ front.length = 2) ∧ (∀ c ∈ front, isCallChar c = true) ∧
    isdigit area = true ∧ suffix.length ≤ 3 ∧ ∀ c ∈ suffix, isupper c = true

theorem callsignCode_callChar : ∀ c, isCallChar c = true →
    (callsignCharacterCode c).toNat < 36 ∧ 0 ≤ callsignCharacterCode c ∧
      callChar (callsignCharacterCode c).toNat = c ∧ c ≠ 32 ∧ c ≠ 0 :=
  forall_byte (by decide +kernel)

theorem callsignCode_digit : ∀ c, isdigit c = true →
    (callsignCharacterCode c).toNat < 10 ∧ isCallChar c = true :=
  forall_byte (by decide +kernel)

theorem callsignCode_upper : ∀ c, isupper c = true →
    10 ≤ (callsignCharacterCode c).toNat ∧ isCallChar c = true ∧ isdigit c = false :=
  forall_byte (by decide +kernel)

/-- The code of a character of the suffix, or of a blank behind it -/
def IsSuffixCode (code : Nat) : Prop := 10 ≤ code ∧ code ≤ 36

/-- The packing of six places with a digit in the third one, in the radices of the places -/
def placesValue (c0 c1 c2 c3 c4 c5 : Nat) : Nat :=
  ((((c0 * 36 + c1) * 10 + c2) * 27 + (c3 - 10)) * 27 + (c4 - 10)) * 27 + (c5 - 10)

/-- The radices are those of the places. -/
theorem unpackcall_placesValue {c0 c1 c2 c3 c4 c5 : Nat} (h0 : c0 ≤ 36) (h1 : c1 < 36)
    (h2 : c2 < 10) (h3 : IsSuffixCode c3) (h4 : IsSuffixCode c4) (h5 : IsSuffixCode c5) :
    placesValue c0 c1 c2 c3 c4 c5 < 262177560 ∧
      unpackcall (placesValue c0 c1 c2 c3 c4 c5) =
        some (callArray [callChar c0, callChar c1, callChar c2, callChar c3, callChar c4,
          callChar c5]) := by
  simp only [IsSuffixCode] at h3 h4 h5
  have hlt : placesValue c0 c1 c2 c3 c4 c5 < 262177560 := by
    simp only [placesValue]
    omega
  have hc5 : placesValue c0 c1 c2 c3 c4 c5 % 27 + 10 = c5 := by
    simp only [placesValue]
    omega
  have hdiv5 : placesValue c0 c1 c2 c3 c4 c5 / 27 =
      (((c0 * 36 + c1) * 10 + c2) * 27 + (c3 - 10)) * 27 + (c4 - 10) := by
    simp only [placesValue]
    omega
  have hc4 : ((((c0 * 36 + c1) * 10 + c2) * 27 + (c3 - 10)) * 27 + (c4 - 10)) % 27 + 10 = c4 := by
    omega
  have hdiv4 : ((((c0 * 36 + c1) * 10 + c2) * 27 + (c3 - 10)) * 27 + (c4 - 10)) / 27 =
      ((c0 * 36 + c1) * 10 + c2) * 27 + (c3 - 10) := by
    omega
  have hc3 : (((c0 * 36 + c1) * 10 + c2) * 27 + (c3 - 10)) % 27 + 10 = c3 := by omega
  have hdiv3 : (((c0 * 36 + c1) * 10 + c2) * 27 + (c3 - 10)) / 27 = (c0 * 36 + c1) * 10 + c2 := by
    omega
  have hc2 : ((c0 * 36 + c1) * 10 + c2) % 10 = c2 := by omega
  have hdiv2 : ((c0 * 36 + c1) * 10 + c2) / 10 = c0 * 36 + c1 := by omega
  have hc1 : (c0 * 36 + c1) % 36 = c1 := by omega
  have hdiv1 : (c0 * 36 + c1) / 36 = c0 := by omega
  refine ⟨hlt, ?_⟩
  rw [unpackcall, if_pos hlt]
  simp only [hc5, hdiv5, hc4, hdiv4, hc3, hdiv3, hc2, hdiv2, hc1, hdiv1]

theorem placeCode : ∀ c, c = 32 ∨ isCallChar c = true →
    0 ≤ callsignCharacterCode c ∧ (callsignCharacterCode c).toNat ≤ 36 ∧
      callChar (callsignCharacterCode c).toNat = c :=
  forall_byte (by decide +kernel)

theorem suffixCode : ∀ c, c = 32 ∨ isupper c = true →
    0 ≤ callsignCharacterCode c ∧ IsSuffixCode (callsignCharacterCode c).toNat ∧
      callChar (callsignCharacterCode c).toNat = c :=
  forall_byte (by simp only [IsSuffixCode]; decide +kernel)

/-- The places of a callsign -/
structure Places (p0 p1 p2 p3 p4 p5 : UInt8) : Prop where
  first : p0 = 32 ∨ isCallChar p0 = true
  second : isCallChar p1 = true
  area : isdigit p2 = true
  suffix : ∀ c ∈ [p3, p4, p5], c = 32 ∨ isupper c = true

/-- The six places of a callsign are the digits of its number in a mixed radix, so the number
is below 2^28 and its digits are taken off again. -/
theorem packCall_places {call : CString} {p0 p1 p2 p3 p4 p5 : UInt8} (h : Places p0 p1 p2 p3 p4 p5)
    (hlength : call.length ≤ 6) (hcall6 : call6 call = [p0, p1, p2, p3, p4, p5]) :
    packCall call < 2 ^ 28 ∧
      unpackcall (packCall call) = some (callArray [p0, p1, p2, p3, p4, p5]) := by
  obtain ⟨hn0, hle0, hc0⟩ := placeCode p0 h.first
  obtain ⟨hlt1, hn1, hc1, -⟩ := callsignCode_callChar p1 h.second
  obtain ⟨hlt2, hcall2⟩ := callsignCode_digit p2 h.area
  obtain ⟨-, hn2, hc2, -⟩ := callsignCode_callChar p2 hcall2
  obtain ⟨hn3, hs3, hc3⟩ := suffixCode p3 (h.suffix p3 (by simp))
  obtain ⟨hn4, hs4, hc4⟩ := suffixCode p4 (h.suffix p4 (by simp))
  obtain ⟨hn5, hs5, hc5⟩ := suffixCode p5 (h.suffix p5 (by simp))
  obtain ⟨hvalue, hunpack⟩ := unpackcall_placesValue hle0 hlt1 hlt2 hs3 hs4 hs5
  have hpack : packCall call = placesValue (callsignCharacterCode p0).toNat
      (callsignCharacterCode p1).toNat (callsignCharacterCode p2).toNat
      (callsignCharacterCode p3).toNat (callsignCharacterCode p4).toNat
      (callsignCharacterCode p5).toNat := by
    simp only [placesValue] at hvalue
    simp only [IsSuffixCode] at hs3 hs4 hs5
    simp only [packCall, hcall6, if_neg (not_lt.mpr hlength), placesValue, List.getD_cons_zero,
      List.getD_cons_succ]
    omega
  rw [hpack]
  refine ⟨by omega, ?_⟩
  rw [hunpack, hc0, hc1, hc2, hc3, hc4, hc5]

/-- Blanks in front and behind are removed. -/
theorem callArray_padded {call : CString} {front behind : Nat} (hfront : front < 5)
    (hne : call ≠ []) (hcall : ∀ c ∈ call, c ≠ 32) (hlength : front + call.length + behind = 6) :
    callArray (List.replicate front 32 ++ call ++ List.replicate behind 32) =
      call ++ List.replicate (6 - call.length) 0 := by
  obtain ⟨c, rest, rfl⟩ := List.exists_cons_of_ne_nil hne
  have hhead : c ≠ 32 := hcall c List.mem_cons_self
  have hblanks : ((List.replicate front 32 ++ c :: rest ++ List.replicate behind 32).take
      5).takeWhile (· = 32) = List.replicate front 32 := by
    rw [List.append_assoc, List.take_append, List.take_of_length_le (by simp; omega),
      List.takeWhile_append_of_pos (by simp), List.length_replicate, List.cons_append,
      show 5 - front = 4 - front + 1 by omega, List.take_succ_cons,
      List.takeWhile_cons_of_neg (by simpa using hhead), List.append_nil]
  have hpad : padRight 6 ((c :: rest) ++ List.replicate behind 32) =
      c :: rest ++ List.replicate (6 - (c :: rest).length) 32 := by
    rw [padRight, List.append_assoc, List.length_append, List.length_replicate,
      show (' '.toUInt8) = 32 by decide, List.replicate_append_replicate]
    congr 2
    omega
  have hkeep : (c :: rest).map (fun c => if c = 32 then (0 : UInt8) else c) = c :: rest := by
    exact (List.map_congr_left fun c' hc' => if_neg (hcall c' hc')).trans (List.map_id' _)
  simp only [callArray, hblanks, List.length_replicate]
  rw [List.append_assoc, List.drop_left' List.length_replicate, hpad, List.map_append, hkeep,
    List.map_replicate]
  rfl

/-- The suffix of a callsign with its padding fills the last three places with letters and
blanks. -/
theorem suffix_places {suffix : CString} (hlength : suffix.length ≤ 3)
    (h : ∀ c ∈ suffix, isupper c = true) :
    ∃ p3 p4 p5, suffix ++ List.replicate (3 - suffix.length) 32 = [p3, p4, p5] ∧
      ∀ c ∈ [p3, p4, p5], c = 32 ∨ isupper c = true := by
  obtain ⟨p3, p4, p5, hplaces⟩ : ∃ p3 p4 p5,
      suffix ++ List.replicate (3 - suffix.length) 32 = [p3, p4, p5] := by
    apply List.length_eq_three.mp
    rw [List.length_append, List.length_replicate]
    omega
  refine ⟨p3, p4, p5, hplaces, ?_⟩
  intro c hc
  rw [← hplaces] at hc
  obtain hc | hc := List.mem_append.mp hc
  · exact .inr (h c hc)
  · exact .inl (List.eq_of_mem_replicate hc)

theorem PlainCall.ne_nil {call : CString} (h : PlainCall call) : call ≠ [] := by
  obtain ⟨front, area, suffix, rfl, -⟩ := h.split
  exact List.append_ne_nil_of_right_ne_nil _ (List.cons_ne_nil _ _)

theorem PlainCall.length {call : CString} (h : PlainCall call) :
    2 ≤ call.length ∧ call.length ≤ 6 := by
  obtain ⟨front, area, suffix, rfl, hfront, -, -, hsuffix, -⟩ := h.split
  rw [List.length_append, List.length_cons]
  omega

theorem PlainCall.callChars {call : CString} (h : PlainCall call) :
    ∀ c ∈ call, isCallChar c = true := by
  obtain ⟨front, area, suffix, rfl, -, hfront, harea, -, hsuffix⟩ := h.split
  intro c hc
  obtain hc | hc := List.mem_append.mp hc
  · exact hfront c hc
  · obtain rfl | hc := List.mem_cons.mp hc
    · exact (callsignCode_digit c harea).2
    · exact (callsignCode_upper c (hsuffix c hc)).2.1

/-- **A callsign of the plain form is unpacked as it was packed.** -/
theorem PlainCall.unpackcall_packCall {call : CString} (h : PlainCall call) :
    packCall call < 2 ^ 28 ∧
      unpackcall (packCall call) = some (call ++ List.replicate (6 - call.length) 0) := by
  have hlength := h.length
  have hsolid : ∀ c ∈ call, c ≠ 32 := fun c hc =>
    (callsignCode_callChar c (h.callChars c hc)).2.2.2.1
  obtain ⟨front, area, suffix, hcall, hfront, hfrontChars, harea, hsuffixLength, hsuffix⟩ := h.split
  obtain ⟨p3, p4, p5, hplaces, hletters⟩ := suffix_places hsuffixLength hsuffix
  have hne := h.ne_nil
  have hpad : ∀ text : CString, padRight 6 (text ++ area :: suffix) =
      text ++ area :: suffix ++ List.replicate (5 - text.length - suffix.length) 32 := by
    intro text
    rw [padRight, List.length_append, List.length_cons]
    congr 2
    omega
  obtain hone | htwo := hfront
  · obtain ⟨first, rfl⟩ := List.length_eq_one_iff.mp hone
    have hthird : isdigit (call.getD 2 0) = false := by
      rw [hcall]
      cases suffix with
      | nil => rfl
      | cons c suffix => exact (callsignCode_upper c (hsuffix c List.mem_cons_self)).2.2
    have hsecond : isdigit (call.getD 1 0) = true := by
      rw [hcall]
      exact harea
    have hcall6 : call6 call = [32, first, area, p3, p4, p5] := by
      have hsix : padRight 6 (32 :: call) = [32, first, area, p3, p4, p5] := by
        rw [hcall]
        exact (hpad [32, first]).trans (congrArg ([32, first, area] ++ ·) hplaces)
      rw [call6, hthird, hsecond, if_neg Bool.false_ne_true, if_pos rfl, hsix]
      rfl
    have hpadded : [32, first, area, p3, p4, p5] =
        List.replicate 1 32 ++ call ++ List.replicate (3 - suffix.length) 32 := by
      rw [hcall]
      exact congrArg ([32, first, area] ++ ·) hplaces.symm
    obtain ⟨hlt, hunpack⟩ := packCall_places
      ⟨.inl rfl, hfrontChars first List.mem_cons_self, harea, hletters⟩ hlength.2 hcall6
    refine ⟨hlt, ?_⟩
    rw [hunpack, hpadded, callArray_padded (by decide) hne hsolid]
    simp only [hcall, List.length_append, List.length_cons, List.length_nil]
    omega
  · obtain ⟨first, second, rfl⟩ := List.length_eq_two.mp htwo
    have hthird : isdigit (call.getD 2 0) = true := by
      rw [hcall]
      exact harea
    have hcall6 : call6 call = [first, second, area, p3, p4, p5] := by
      rw [call6, hthird, if_pos rfl, hcall]
      exact (hpad [first, second]).trans (congrArg ([first, second, area] ++ ·) hplaces)
    have hpadded : [first, second, area, p3, p4, p5] =
        List.replicate 0 32 ++ call ++ List.replicate (3 - suffix.length) 32 := by
      rw [hcall]
      exact congrArg ([first, second, area] ++ ·) hplaces.symm
    obtain ⟨hlt, hunpack⟩ := packCall_places
      ⟨.inr (hfrontChars first List.mem_cons_self), hfrontChars second (by simp), harea, hletters⟩
      hlength.2 hcall6
    refine ⟨hlt, ?_⟩
    rw [hunpack, hpadded, callArray_padded (by decide) hne hsolid]
    simp only [hcall, List.length_append, List.length_cons, List.length_nil]
    omega

/-- A locator of four characters -/
structure PlainGrid (grid : CString) : Prop where
  split : ∃ c0 c1 c2 c3, grid = [c0, c1, c2, c3] ∧
    (65 ≤ c0 ∧ c0 ≤ 82) ∧ (65 ≤ c1 ∧ c1 ≤ 82) ∧ isdigit c2 = true ∧ isdigit c3 = true

theorem locatorCode_letter : ∀ c : UInt8, 65 ≤ c ∧ c ≤ 82 →
    0 ≤ locatorCharacterCode c ∧ locatorCharacterCode c < 18 ∧
      callChar (10 + locatorCharacterCode c).toNat = c :=
  forall_byte (by decide +kernel)

theorem locatorCode_digit : ∀ c, isdigit c = true →
    0 ≤ locatorCharacterCode c ∧ locatorCharacterCode c < 10 ∧
      callChar (locatorCharacterCode c).toNat = c :=
  forall_byte (by decide +kernel)

/-- The codes of the four characters that are read of a locator -/
def gridCodes (grid : CString) : List Int :=
  (List.range 4).map fun i => locatorCharacterCode (grid.getD i 0)

/-- **A locator is unpacked as it was packed**, and the power stays in the low bits. -/
theorem PlainGrid.unpackgrid_packGrid4Power {grid : CString} (h : PlainGrid grid) {power : Int}
    (hpower : -64 ≤ power ∧ power < 64) :
    0 ≤ packGrid4Power (gridCodes grid) power ∧
      packGrid4Power (gridCodes grid) power < 2 ^ 22 ∧
      packGrid4Power (gridCodes grid) power % 128 = power + 64 ∧
      unpackgrid (packGrid4Power (gridCodes grid) power).toNat = some grid := by
  obtain ⟨c0, c1, c2, c3, rfl, h0, h1, h2, h3⟩ := h.split
  obtain ⟨hl0, hu0, hc0⟩ := locatorCode_letter c0 h0
  obtain ⟨hl1, hu1, hc1⟩ := locatorCode_letter c1 h1
  obtain ⟨hl2, hu2, hc2⟩ := locatorCode_digit c2 h2
  obtain ⟨hl3, hu3, hc3⟩ := locatorCode_digit c3 h3
  have hcodes : gridCodes [c0, c1, c2, c3] = [locatorCharacterCode c0, locatorCharacterCode c1,
      locatorCharacterCode c2, locatorCharacterCode c3] := rfl
  simp only [hcodes, packGrid4Power, List.getD_cons_zero, List.getD_cons_succ]
  generalize locatorCharacterCode c0 = g0 at *
  generalize locatorCharacterCode c1 = g1 at *
  generalize locatorCharacterCode c2 = g2 at *
  generalize locatorCharacterCode c3 = g3 at *
  refine ⟨by omega, by omega, by omega, ?_⟩
  have hgrid : (((179 - 10 * g0 - g2) * 180 + 10 * g1 + g3) * 128 + power + 64).toNat / 2 ^ 7 =
      ((179 - 10 * g0 - g2) * 180 + 10 * g1 + g3).toNat := by omega
  have hlat : ((((179 - 10 * g0 - g2) * 180 + 10 * g1 + g3).toNat % 180 : Nat) : Int) =
      10 * g1 + g3 := by omega
  have hlong : ((((179 - 10 * g0 - g2) * 180 + 10 * g1 + g3).toNat / 180 : Nat) : Int) =
      179 - 10 * g0 - g2 := by omega
  simp only [unpackgrid, hgrid, hlat, hlong]
  rw [if_pos (by omega), if_neg (by omega), if_neg (by omega)]
  have hn1 : 60 * (180 - ((179 - 10 * g0 - g2) * 2 - 180 + 2)) / 5 / 240 = g0 := by omega
  have hn2 : (60 * (180 - ((179 - 10 * g0 - g2) * 2 - 180 + 2)) / 5 - 240 * g0) / 24 = g2 := by
    omega
  have hn1' : 60 * (10 * g1 + g3 - 90 + 90) * 2 / 5 / 240 = g1 := by omega
  have hn2' : (60 * (10 * g1 + g3 - 90 + 90) * 2 / 5 - 240 * g1) / 24 = g3 := by omega
  rw [hn1, hn1', hn2, hn2', hc0, hc1, hc2, hc3]

end AirspyhfWsprd.Wspr
