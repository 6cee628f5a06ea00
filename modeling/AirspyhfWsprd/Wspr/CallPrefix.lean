import AirspyhfWsprd.Library.Tokens
import AirspyhfWsprd.Wspr.CallPacking

/-!
Callsigns with a prefix or a suffix: `pack_prefix` of `wsprsim_utils.c` and `unpackpfx` of
`wsprd_utils.c`. The number that stands for the prefix or the suffix takes the 15 bits of
the locator and one more, which is added to the power.
-/

namespace AirspyhfWsprd.Wspr

open Library

/-- The code of a character of a prefix or a suffix, `other` when it is none of these -/
def affixCode (other : Int) (nc : UInt8) : Int :=
  if 48 ≤ nc ∧ nc ≤ 57 then nc.toNat - 48
  else if 65 ≤ nc ∧ nc ≤ 90 then nc.toNat - 65 + 10
  else other

/-- The number of a prefix. The characters are read from the start of the callsign. -/
def prefixNumber (callsign : CString) (plen : Nat) : Int :=
  let m := if plen = 1 then 37 * 36 + 36 else if plen = 2 then 36 else 0
  (callsign.take plen).foldl (fun m nc => 37 * m + affixCode 36 nc) m

/-- `pack_prefix`, of a callsign and of what stands behind its terminator: `n`, `m` and
`nadd`, or nothing where the callsign behind the slash is a null pointer -/
def packPrefix (callsign behind : CString) : Option (Nat × Int × Int) :=
  let i1 := strcspn callsign (bytes "/")
  let char i := (callsign ++ 0 :: behind).getD i 0
  if char (i1 + 2) = 0 then
    some (packCall (callsign.take i1), 60000 - 32768 + affixCode 38 (char (i1 + 1)), 1)
  else if char (i1 + 3) = 0 then
    let m := 10 * ((char (i1 + 1)).toInt8.toInt - 48) + ((char (i1 + 2)).toInt8.toInt - 48)
    some (packCall (callsign.take i1), 60000 + 26 + m, 1)
  else do
    let (pfx, rest) ← nextToken (bytes "/") callsign
    let (call, _) ← nextToken (bytes " ") rest
    let m := prefixNumber callsign pfx.length
    if m > 32768 then some (packCall call, m - 32768, 1) else some (packCall call, m, 0)

/-- A character of a prefix -/
def affixChar (nc : Nat) : UInt8 :=
  if nc ≤ 9 then UInt8.ofNat (nc + 48) else if nc ≤ 35 then UInt8.ofNat (nc + 55) else 32

/-- `unpackpfx`: the callsign with the prefix or suffix, or nothing where it returns zero -/
def unpackpfx (npfx : Nat) (call : CString) : Option CString :=
  let tmpcall := call.take 6
  if npfx < 60000 then
    let pfx := [affixChar (npfx / 37 / 37 % 37), affixChar (npfx / 37 % 37),
      affixChar (npfx % 37)]
    let prefixStart := (pfx.reverse.takeWhile (· ≠ 32)).reverse
    some (copyText 20 (prefixStart ++ bytes "/" ++ tmpcall))
  else
    let nc := npfx - 60000
    if nc ≤ 35 then some (copyText 20 (tmpcall ++ bytes "/" ++ [affixChar nc]))
    else if nc ≤ 125 then
      let pfx := [UInt8.ofNat ((nc - 26) / 10 + 48), UInt8.ofNat ((nc - 26) % 10 + 48)]
      some (copyText 20 (tmpcall ++ bytes "/" ++ pfx))
    else none

theorem affixCode_callChar (other : Int) {c : UInt8} (h : isCallChar c = true) :
    0 ≤ affixCode other c ∧ affixCode other c < 36 ∧ affixChar (affixCode other c).toNat = c := by
  have hranges : ∀ c, isCallChar c = true → 48 ≤ c ∧ c ≤ 57 ∨ 65 ≤ c ∧ c ≤ 90 :=
    forall_byte (by decide +kernel)
  have hcode : ∀ c, isCallChar c = true →
      0 ≤ affixCode 0 c ∧ affixCode 0 c < 36 ∧ affixChar (affixCode 0 c).toNat = c :=
    forall_byte (by decide +kernel)
  have hother : affixCode other c = affixCode 0 c := by
    obtain hdigit | hletter := hranges c h
    · rw [affixCode, affixCode, if_pos hdigit, if_pos hdigit]
    · simp only [affixCode, if_pos hletter]
  rw [hother]
  exact hcode c h

/-- The places of a prefix: three characters, with blanks in front -/
theorem unpackpfx_places {a b c : Nat} (ha : a < 37) (hb : b < 37) (hc : c < 37)
    (call : CString) :
    unpackpfx (37 * (37 * a + b) + c) call =
      some (copyText 20 (([affixChar a, affixChar b, affixChar c].reverse.takeWhile
        (· ≠ 32)).reverse ++ bytes "/" ++ call.take 6)) := by
  have hdiv : (37 * (37 * a + b) + c) / 37 = 37 * a + b := by omega
  have hdiv' : (37 * a + b) / 37 = a := by omega
  have hmod : (37 * (37 * a + b) + c) % 37 = c := by omega
  have hmod' : (37 * a + b) % 37 = b := by omega
  have hlt : 37 * (37 * a + b) + c < 60000 := by omega
  simp only [unpackpfx, if_pos hlt, hdiv, hdiv', hmod, hmod', Nat.mod_eq_of_lt ha]

theorem short_cases {text : CString} (hne : text ≠ []) (hlength : text.length ≤ 3) :
    (∃ c, text = [c]) ∨ (∃ b c, text = [b, c]) ∨ ∃ a b c, text = [a, b, c] := by
  have hpos := List.length_pos_of_ne_nil hne
  obtain hone | htwo | hthree : text.length = 1 ∨ text.length = 2 ∨ text.length = 3 := by omega
  · exact .inl (List.length_eq_one_iff.mp hone)
  · exact .inr (.inl (List.length_eq_two.mp htwo))
  · exact .inr (.inr (List.length_eq_three.mp hthree))

/-- A prefix of one to three characters is unpacked as it was packed. -/
theorem unpackpfx_prefixNumber (pfx : CString) (hne : pfx ≠ []) (hlength : pfx.length ≤ 3)
    (hpfx : ∀ c ∈ pfx, isCallChar c = true) (behind : CString) {call : CString}
    (hcall : call.length ≤ 6) :
    0 ≤ prefixNumber (pfx ++ behind) pfx.length ∧
      prefixNumber (pfx ++ behind) pfx.length < 50653 ∧
      (prefixNumber (pfx ++ behind) pfx.length ≤ 32768 → pfx.length = 3) ∧
      unpackpfx (prefixNumber (pfx ++ behind) pfx.length).toNat call =
        some (pfx ++ bytes "/" ++ call) := by
  have hblank : affixChar 36 = 32 := rfl
  have hsolid : ∀ c ∈ pfx, c ≠ 32 := fun c hc =>
    (callsignCode_callChar c (hpfx c hc)).2.2.2.1
  have hcopy : copyText 20 (pfx ++ bytes "/" ++ call.take 6) = pfx ++ bytes "/" ++ call := by
    rw [copyText, List.take_of_length_le hcall, List.take_of_length_le]
    simp only [List.length_append, show (bytes "/").length = 1 from rfl]
    omega
  rw [← hcopy]
  obtain ⟨c, rfl⟩ | ⟨b, c, rfl⟩ | ⟨a, b, c, rfl⟩ := short_cases hne hlength
  · have hc := affixCode_callChar 36 (hpfx c (by simp))
    have hnumber : prefixNumber ([c] ++ behind) 1 = 37 * (37 * 36 + 36) + affixCode 36 c := rfl
    rw [List.length_singleton, hnumber]
    refine ⟨by omega, by omega, by omega, ?_⟩
    rw [show (37 * (37 * 36 + 36) + affixCode 36 c).toNat =
      37 * (37 * 36 + 36) + (affixCode 36 c).toNat by omega,
      unpackpfx_places (by decide) (by decide) (by omega), hc.2.2, hblank]
    simp [hsolid c]
  · have hb := affixCode_callChar 36 (hpfx b (by simp))
    have hc := affixCode_callChar 36 (hpfx c (by simp))
    have hnumber : prefixNumber ([b, c] ++ behind) 2 =
        37 * (37 * 36 + affixCode 36 b) + affixCode 36 c := rfl
    rw [show [b, c].length = 2 from rfl, hnumber]
    refine ⟨by omega, by omega, by omega, ?_⟩
    rw [show (37 * (37 * 36 + affixCode 36 b) + affixCode 36 c).toNat =
      37 * (37 * 36 + (affixCode 36 b).toNat) + (affixCode 36 c).toNat by omega,
      unpackpfx_places (by decide) (by omega) (by omega), hb.2.2, hc.2.2, hblank]
    simp [hsolid b, hsolid c]
  · have ha := affixCode_callChar 36 (hpfx a (by simp))
    have hb := affixCode_callChar 36 (hpfx b (by simp))
    have hc := affixCode_callChar 36 (hpfx c (by simp))
    have hnumber : prefixNumber ([a, b, c] ++ behind) 3 =
        37 * (37 * (37 * 0 + affixCode 36 a) + affixCode 36 b) + affixCode 36 c := rfl
    rw [show [a, b, c].length = 3 from rfl, hnumber]
    refine ⟨by omega, by omega, fun _ => rfl, ?_⟩
    rw [show (37 * (37 * (37 * 0 + affixCode 36 a) + affixCode 36 b) + affixCode 36 c).toNat =
      37 * (37 * (affixCode 36 a).toNat + (affixCode 36 b).toNat) + (affixCode 36 c).toNat by
        omega,
      unpackpfx_places (by omega) (by omega) (by omega), ha.2.2, hb.2.2, hc.2.2]
    simp [hsolid a, hsolid b, hsolid c]

/-- The forms of a callsign with a prefix or a suffix that the number has room for. -/
inductive CompoundCall : CString → Prop where
  | withPrefix {pfx call : CString} (hne : pfx ≠ []) (hlength : pfx.length ≤ 3)
      (hpfx : ∀ c ∈ pfx, isCallChar c = true) (hcall : PlainCall call) (hthree : 3 ≤ call.length) :
      CompoundCall (pfx ++ 47 :: call)
  | withSuffix {call : CString} {c : UInt8} (hcall : PlainCall call) (hc : isCallChar c = true) :
      CompoundCall (call ++ [47, c])
  | withDigits {call : CString} {a b : UInt8} (hcall : PlainCall call) (ha : isdigit a = true)
      (hb : isdigit b = true) : CompoundCall (call ++ [47, a, b])

/-- The forms that the decoder does not give back. The number of a prefix from `NOP` on is
taken for a locator that is none, and the number of `NYN` is 32768, which the comparison of
`pack_prefix` leaves without its bit. The numbers of two digits that start with zero are
those of the letters. -/
def Misheard (callsign : CString) : Prop :=
  (callsign.getD 3 0 = 47 ∧ 7 ≤ callsign.length ∧ 32400 ≤ prefixNumber callsign 3 ∧
    prefixNumber callsign 3 ≤ 32768) ∨ bytes "/0" <+: callsign.drop (callsign.length - 3)

instance (callsign : CString) : Decidable (Misheard callsign) :=
  inferInstanceAs (Decidable (_ ∨ _))

/-- What `unpk_` gives to `unpackpfx`: 15 bits of `m`, and the bit that `nadd` adds to the
power -/
def sentPrefix (m nadd : Int) : Nat := (m % 32768 + 32768 * nadd).toNat

theorem callChar_ne_slash : ∀ c, isCallChar c = true → c ∉ bytes "/" ∧ c ∉ bytes " " :=
  forall_byte (by decide +kernel)

theorem strcspn_slash {front : CString} (h : ∀ c ∈ front, isCallChar c = true) (rest : CString) :
    strcspn (front ++ 47 :: rest) (bytes "/") = front.length := by
  rw [strcspn_append fun c hc => (callChar_ne_slash c (h c hc)).1, strcspn_cons (by decide),
    Nat.add_zero]

theorem getD_behind (front rest : CString) (i : Nat) :
    (front ++ rest).getD (front.length + i) 0 = rest.getD i 0 := by
  rw [List.getD_append_right _ _ _ _ (Nat.le_add_right _ _), Nat.add_sub_cancel_left]

/-- Two texts with a slash behind characters of a callsign are split at the slash. -/
theorem slash_split {front front' rest rest' : CString}
    (h : ∀ c ∈ front, isCallChar c = true) (h' : ∀ c ∈ front', isCallChar c = true)
    (heq : front ++ 47 :: rest = front' ++ 47 :: rest') : front = front' ∧ rest = rest' := by
  have hlength := strcspn_slash h rest
  rw [heq, strcspn_slash h'] at hlength
  obtain ⟨hfront, hrest⟩ := List.append_inj heq hlength.symm
  exact ⟨hfront, List.tail_eq_of_cons_eq hrest⟩

/-- What `pack_prefix` makes of a callsign, and whether it is unpacked again -/
structure PrefixSent (callsign behind call : CString) (m nadd : Int) : Prop where
  plain : PlainCall call
  packed : packPrefix callsign behind = some (packCall call, m, nadd)
  bit : nadd = 0 ∨ nadd = 1
  heard : m % 32768 < 32400 ∧ unpackpfx (sentPrefix m nadd) call = some callsign ↔
    ¬ Misheard callsign

/-- A callsign with a suffix has no prefix. -/
theorem plain_unpfxed {call rest : CString} (h : PlainCall call) (hrest : rest.length ≤ 2) :
    ¬ ((call ++ 47 :: rest).getD 3 0 = 47 ∧ 7 ≤ (call ++ 47 :: rest).length) := by
  rintro ⟨hslash, hlength⟩
  rw [List.length_append, List.length_cons] at hlength
  rw [List.getD_append _ _ _ _ (by omega), List.getD_eq_getElem _ _ (by omega)] at hslash
  have hmem : (47 : UInt8) ∈ call := hslash ▸ List.getElem_mem _
  exact (callChar_ne_slash 47 (h.callChars 47 hmem)).1 (by decide)

/-- The last three characters, behind any others -/
theorem drop_three (front : CString) (a b c : UInt8) :
    (front ++ [a, b, c]).drop ((front ++ [a, b, c]).length - 3) = [a, b, c] := by
  rw [List.length_append]
  exact List.drop_left

theorem slash_mem {text : CString} (h : bytes "/0" <+: text) : (47 : UInt8) ∈ text :=
  h.subset (by decide)

/-- A suffix of one letter or digit is sent as a number from 60000 on, the packed callsign
being the one in front of the slash. -/
theorem prefixSent_suffix {call : CString} {c : UInt8} (hcall : PlainCall call)
    (hc : isCallChar c = true) (behind : CString) :
    ∃ m nadd, PrefixSent (call ++ [47, c]) behind call m nadd := by
  have hspn := strcspn_slash hcall.callChars [c]
  have hchar : ∀ i, (call ++ [47, c] ++ 0 :: behind).getD (call.length + i) 0 =
      ([47, c] ++ 0 :: behind).getD i 0 := fun i => by
    rw [List.append_assoc, getD_behind]
  have hsound : ¬ Misheard (call ++ [47, c]) := by
    rintro (⟨hslash, hlength, -⟩ | hzero)
    · exact plain_unpfxed hcall (by simp) ⟨hslash, hlength⟩
    · obtain ⟨init, last, rfl⟩ := (List.eq_nil_or_concat' call).resolve_left hcall.ne_nil
      rw [List.append_assoc] at hzero
      replace hzero : bytes "/0" <+: [last, 47, c] := (drop_three init last 47 c) ▸ hzero
      obtain ⟨hlast, -⟩ := List.cons_prefix_cons.mp hzero
      exact (callChar_ne_slash last (hcall.callChars last (by simp))).1 (by rw [← hlast]; decide)
  obtain ⟨hpos, hlt, hback⟩ := affixCode_callChar 38 hc
  refine ⟨60000 - 32768 + affixCode 38 c, 1, hcall, ?_, .inr rfl, iff_of_true ⟨by omega, ?_⟩ hsound⟩
  · simp only [packPrefix, hspn, hchar]
    rw [if_pos (show ([47, c] ++ 0 :: behind).getD 2 0 = 0 from rfl), List.take_left]
    rfl
  · have hsent : sentPrefix (60000 - 32768 + affixCode 38 c) 1 =
        60000 + (affixCode 38 c).toNat := by
      rw [sentPrefix]
      omega
    have hnc : 60000 + (affixCode 38 c).toNat - 60000 ≤ 35 := by omega
    rw [unpackpfx, hsent, if_neg (by omega), if_pos hnc, Nat.add_sub_cancel_left, hback,
      List.take_of_length_le hcall.length.2, copyText, List.take_of_length_le]
    · rw [List.append_assoc]
      rfl
    · have hlength := hcall.length
      simp only [List.length_append, show (bytes "/").length = 1 from rfl, List.length_singleton]
      omega

theorem digit_number : ∀ c, isdigit c = true →
    0 ≤ c.toInt8.toInt - 48 ∧ c.toInt8.toInt - 48 < 10 ∧
      UInt8.ofNat ((c.toInt8.toInt - 48).toNat + 48) = c ∧ (c.toInt8.toInt - 48 = 0 ↔ c = 48) ∧
      c ≠ 0 :=
  forall_byte (by decide +kernel)

/-- A suffix of two digits is sent as a number behind those of the single characters. One that
starts with zero gets the number of a letter, and is read back as that letter. -/
theorem prefixSent_digits {call : CString} {a b : UInt8} (hcall : PlainCall call)
    (ha : isdigit a = true) (hb : isdigit b = true) (behind : CString) :
    ∃ m nadd, PrefixSent (call ++ [47, a, b]) behind call m nadd := by
  have hspn := strcspn_slash hcall.callChars [a, b]
  have hchar : ∀ i, (call ++ [47, a, b] ++ 0 :: behind).getD (call.length + i) 0 =
      ([47, a, b] ++ 0 :: behind).getD i 0 := fun i => by
    rw [List.append_assoc, getD_behind]
  have hmisheard : Misheard (call ++ [47, a, b]) ↔ a = 48 := by
    rw [Misheard, drop_three]
    constructor
    · rintro (⟨hslash, hlength, -⟩ | hzero)
      · exact absurd ⟨hslash, hlength⟩ (plain_unpfxed hcall (by simp))
      · exact (List.cons_prefix_cons.mp (List.cons_prefix_cons.mp hzero).2).1.symm
    · rintro rfl
      exact .inr ⟨[b], rfl⟩
  obtain ⟨hposA, hltA, hbackA, hzeroA, -⟩ := digit_number a ha
  obtain ⟨hposB, hltB, hbackB, -, hneB⟩ := digit_number b hb
  have hpacked : packPrefix (call ++ [47, a, b]) behind = some (packCall call,
      60000 + 26 + (10 * (a.toInt8.toInt - 48) + (b.toInt8.toInt - 48)), 1) := by
    simp only [packPrefix, hspn, hchar]
    rw [if_neg (show ([47, a, b] ++ 0 :: behind).getD 2 0 ≠ 0 from hneB),
      if_pos (show ([47, a, b] ++ 0 :: behind).getD 3 0 = 0 from rfl), List.take_left]
    rfl
  generalize a.toInt8.toInt - 48 = x at *
  generalize b.toInt8.toInt - 48 = y at *
  refine ⟨60000 + 26 + (10 * x + y), 1, hcall, hpacked, .inr rfl, ?_⟩
  have hsent : sentPrefix (60000 + 26 + (10 * x + y)) 1 = 60000 + (26 + 10 * x + y).toNat := by
    rw [sentPrefix]
    omega
  have hsuffix : ∀ text : CString, text.length ≤ 2 →
      copyText 20 (call.take 6 ++ bytes "/" ++ text) = call ++ 47 :: text := by
    intro text htext
    rw [List.take_of_length_le hcall.length.2, copyText, List.take_of_length_le]
    · rw [List.append_assoc]
      rfl
    · have hlength := hcall.length
      simp only [List.length_append, show (bytes "/").length = 1 from rfl]
      omega
  have hunpack : unpackpfx (60000 + (26 + 10 * x + y).toNat) call =
      some (call ++ 47 :: if x = 0 then [affixChar (26 + y).toNat] else [a, b]) := by
    simp only [unpackpfx, Nat.add_sub_cancel_left]
    rw [if_neg (by omega)]
    by_cases hzero : x = 0
    · have hnc : (26 + 10 * x + y).toNat ≤ 35 := by omega
      rw [if_pos hnc, if_pos hzero, hsuffix _ (by simp), hzero, Int.mul_zero, Int.add_zero]
    · have hnc : ¬ (26 + 10 * x + y).toNat ≤ 35 := by omega
      have hnc' : (26 + 10 * x + y).toNat ≤ 125 := by omega
      have htens : ((26 + 10 * x + y).toNat - 26) / 10 = x.toNat := by omega
      have hunits : ((26 + 10 * x + y).toNat - 26) % 10 = y.toNat := by omega
      rw [if_neg hnc, if_pos hnc', if_neg hzero, htens, hunits, hbackA, hbackB,
        hsuffix _ (by simp)]
  rw [hsent, hunpack, hmisheard, ← hzeroA]
  by_cases hzero : x = 0
  · refine iff_of_false ?_ (not_not_intro hzero)
    rintro ⟨-, heq⟩
    rw [if_pos hzero] at heq
    have hlength := congrArg List.length (Option.some.inj heq)
    simp only [List.length_append, List.length_cons, List.length_nil] at hlength
    omega
  · exact iff_of_true ⟨by omega, by rw [if_neg hzero]⟩ hzero

/-- A prefix of up to three characters is sent as their number in base 37, of which the message
has fifteen bits and `nadd` the highest one. The cases are the lengths of the prefix, since a
shorter one is padded with blanks. -/
theorem prefixSent_prefix {pfx call : CString} (hne : pfx ≠ []) (hlength : pfx.length ≤ 3)
    (hpfx : ∀ c ∈ pfx, isCallChar c = true) (hcall : PlainCall call) (hthree : 3 ≤ call.length)
    (behind : CString) : ∃ m nadd, PrefixSent (pfx ++ 47 :: call) behind call m nadd := by
  have hspn := strcspn_slash hpfx call
  have hsolid : ∀ c ∈ call, c ≠ 0 ∧ c ∉ bytes " " ∧ c ∉ bytes "/" := fun c hc =>
    ⟨(callsignCode_callChar c (hcall.callChars c hc)).2.2.2.2,
      (callChar_ne_slash c (hcall.callChars c hc)).2,
      (callChar_ne_slash c (hcall.callChars c hc)).1⟩
  have hchar : ∀ i < 2, (pfx ++ 47 :: call ++ 0 :: behind).getD (pfx.length + (2 + i)) 0 ≠ 0 := by
    intro i hi
    rw [List.append_assoc, getD_behind, show 2 + i = i + 1 + 1 by omega, List.cons_append,
      List.getD_cons_succ, List.getD_append _ _ _ _ (by omega), List.getD_eq_getElem _ _ (by omega)]
    exact (hsolid _ (List.getElem_mem _)).1
  have hfirst : nextToken (bytes "/") (pfx ++ 47 :: call) = some (pfx, call) :=
    nextToken_word (fun c hc => absurd hc List.not_mem_nil) hne
      (fun c hc => (callChar_ne_slash c (hpfx c hc)).1) (by decide) call
  have hsecond : nextToken (bytes " ") call = some (call, []) :=
    nextToken_last (fun c hc => absurd hc List.not_mem_nil) hcall.ne_nil
      (fun c hc => (hsolid c hc).2.1)
  have hpacked : packPrefix (pfx ++ 47 :: call) behind =
      if prefixNumber (pfx ++ 47 :: call) pfx.length > 32768 then
        some (packCall call, prefixNumber (pfx ++ 47 :: call) pfx.length - 32768, 1)
      else some (packCall call, prefixNumber (pfx ++ 47 :: call) pfx.length, 0) := by
    simp only [packPrefix, hspn]
    rw [if_neg (hchar 0 (by decide)), if_neg (hchar 1 (by decide)), hfirst, Option.bind_eq_bind,
      Option.bind_some, hsecond]
    rfl
  have hnotzero : ¬ bytes "/0" <+: (pfx ++ 47 :: call).drop ((pfx ++ 47 :: call).length - 3) := by
    intro hzero
    have hdrop : (pfx ++ 47 :: call).drop ((pfx ++ 47 :: call).length - 3) =
        call.drop (call.length - 3) := by
      rw [show pfx ++ 47 :: call = pfx ++ [47] ++ call by simp, List.length_append,
        Nat.add_sub_assoc hthree, ← List.drop_drop, List.drop_left]
    rw [hdrop] at hzero
    exact (hsolid 47 (List.mem_of_mem_drop (slash_mem hzero))).2.2 (by decide)
  have hslash : (pfx ++ 47 :: call).getD 3 0 = 47 → pfx.length = 3 := by
    intro hslash
    by_contra hshort
    rw [List.getD_append_right _ _ _ _ hlength, show 3 - pfx.length = 2 - pfx.length + 1 by omega,
      List.getD_cons_succ, List.getD_eq_getElem _ _ (by omega)] at hslash
    exact (hsolid 47 (hslash ▸ List.getElem_mem _)).2.2 (by decide)
  obtain ⟨hpos, hlt, hthree', hunpack⟩ :=
    unpackpfx_prefixNumber pfx hne hlength hpfx (47 :: call) hcall.length.2
  have hmisheard : Misheard (pfx ++ 47 :: call) ↔
      32400 ≤ prefixNumber (pfx ++ 47 :: call) pfx.length ∧
        prefixNumber (pfx ++ 47 :: call) pfx.length ≤ 32768 := by
    constructor
    · rintro (⟨hslash', -, hrange⟩ | hzero)
      · rwa [hslash hslash']
      · exact absurd hzero hnotzero
    · rintro ⟨hlow, hhigh⟩
      have hlast := hthree' hhigh
      refine .inl ⟨?_, ?_, ?_⟩
      · rw [← hlast, List.getD_append_right _ _ _ _ le_rfl, Nat.sub_self]
        rfl
      · rw [List.length_append, List.length_cons]
        omega
      · rw [← hlast]
        exact ⟨hlow, hhigh⟩
  have hform : pfx ++ bytes "/" ++ call = pfx ++ 47 :: call := by
    rw [List.append_assoc]
    rfl
  rw [hform] at hunpack
  by_cases hhigh : prefixNumber (pfx ++ 47 :: call) pfx.length > 32768
  · refine ⟨_, _, hcall, hpacked.trans (if_pos hhigh), .inr rfl, ?_⟩
    rw [hmisheard]
    refine iff_of_true ⟨by omega, ?_⟩ (by omega)
    rw [← hunpack, sentPrefix]
    congr 1
    omega
  · refine ⟨_, _, hcall, hpacked.trans (if_neg hhigh), .inl rfl, ?_⟩
    rw [hmisheard]
    by_cases hlost : prefixNumber (pfx ++ 47 :: call) pfx.length = 32768
    · refine iff_of_false ?_ (by omega)
      rintro ⟨-, heq⟩
      have hzeros : unpackpfx 0 call = some (bytes "000" ++ bytes "/" ++ call) :=
        (unpackpfx_prefixNumber (bytes "000") (by decide) (by decide) (by decide +kernel) []
          hcall.length.2).2.2.2
      rw [hlost, show sentPrefix 32768 0 = 0 from rfl, hzeros, Option.some_inj,
        List.append_assoc] at heq
      obtain ⟨rfl, -⟩ := slash_split (by decide +kernel) hpfx heq
      have hzero : (0 : Int) = 32768 := hlost
      omega
    · have hsent : sentPrefix (prefixNumber (pfx ++ 47 :: call) pfx.length) 0 =
          (prefixNumber (pfx ++ 47 :: call) pfx.length).toNat := by
        rw [sentPrefix]
        omega
      rw [hsent, hunpack]
      constructor
      · rintro ⟨hheard, -⟩
        omega
      · intro hheard
        exact ⟨by omega, rfl⟩

/-- A callsign with a prefix or a suffix is unpacked as it was packed, but for some forms. -/
theorem CompoundCall.prefixSent {callsign : CString} (h : CompoundCall callsign)
    (behind : CString) : ∃ call m nadd, PrefixSent callsign behind call m nadd := by
  cases h with
  | withPrefix hne hlength hpfx hcall hthree =>
      exact ⟨_, prefixSent_prefix hne hlength hpfx hcall hthree behind⟩
  | withSuffix hcall hc => exact ⟨_, prefixSent_suffix hcall hc behind⟩
  | withDigits hcall ha hb => exact ⟨_, prefixSent_digits hcall ha hb behind⟩

end AirspyhfWsprd.Wspr
