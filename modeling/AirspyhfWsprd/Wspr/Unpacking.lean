import AirspyhfWsprd.Wspr.CallPrefix
import AirspyhfWsprd.Wspr.CallsignHash
import AirspyhfWsprd.Wspr.SpotFile

/-!
`unpk_` of `wsprd_utils.c`: the message in eleven bytes of decoded data, and the tables in
which the core keeps the callsigns and the locators it has heard, each at the hash of the
callsign.
-/

namespace AirspyhfWsprd.Wspr

open Library

/-- `hashtab` and `loctab`, the texts in their entries -/
structure HashTables where
  hashtab : Nat → CString
  loctab : Nat → CString

/-- "calloc" -/
def HashTables.empty : HashTables := ⟨fun _ => [], fun _ => []⟩

/-- `nhash(callsign,strlen(callsign),(uint32_t)146)` -/
def callHash (callsign : CString) : Nat := (nhash .bytes callsign callsign.length 146).toNat

/-- What `unpk_` returns and leaves in its arguments. `message` is nothing where
`call_loc_pow` keeps what was in it. -/
structure Unpacked where
  noprint : Bool
  message : Option WsprMessage
  callsign : CString
  tables : HashTables

/-- The powers that are "OK" -/
def powerOk (nu : Nat) : Bool := nu = 0 ∨ nu = 3 ∨ nu = 7

/-- The branch of a callsign with a locator -/
def unpkType1 (tables : HashTables) (callsign grid : CString) (ndbm : Nat) : Unpacked :=
  let ihash := callHash callsign
  ⟨false, some (.type1 callsign grid ndbm), callsign,
    ⟨Function.update tables.hashtab ihash callsign, Function.update tables.loctab ihash grid⟩⟩

/-- The branch of a callsign with a prefix or a suffix: the locator's number is that of the
prefix, and the last digit of the power says to which block of 32768 it belongs. -/
def unpkType2 (tables : HashTables) (callsign : CString) (n2 ntype : Nat) : Unpacked :=
  let nu := ntype % 10
  let nadd := if nu > 7 then nu - 7 else if nu > 3 then nu - 3 else nu
  let n3 := n2 / 128 + 32768 * (nadd - 1)
  match unpackpfx n3 callsign with
  | none => ⟨true, none, callsign, tables⟩
  | some callsign =>
      let ndbm := ntype - nadd
      let nu := ndbm % 10
      if powerOk nu ∨ nu = 10 then
        ⟨false, some (.type2 callsign ndbm), callsign,
          { tables with hashtab := Function.update tables.hashtab (callHash callsign) callsign }⟩
      else ⟨true, some (.type2 callsign ndbm), callsign, tables⟩

/-- The branch of the hash of a callsign, with a locator of six characters in the place of
the callsign -/
def unpkType3 (tables : HashTables) (call : List UInt8) (n2 : Nat) (ntype : Int) : Unpacked :=
  let ndbm := (-(ntype + 1)).toNat
  let grid6 := call.getD 5 0 :: (cstr call).take 5
  let nu := ndbm % 10
  let noprint := !(powerOk nu || nu = 10) || !isalpha (grid6.getD 0 0) ||
    !isalpha (grid6.getD 1 0) || !isdigit (grid6.getD 2 0) || !isdigit (grid6.getD 3 0)
  let ihash := ((n2 - ntype - 64) / 128).toNat
  let callsign :=
    if tables.hashtab ihash ≠ [] then bytes "<" ++ tables.hashtab ihash ++ bytes ">"
    else padLeft 5 (bytes "<...>")
  ⟨noprint || ntype = -64, some (.type3 callsign (cstr grid6) ndbm), callsign, tables⟩

/-- The message of the two numbers that `unpack50` gives. The low seven bits of the second one
say which of the three types it is. -/
def unpkNumbers (tables : HashTables) (n1 n2 : Nat) : Unpacked :=
  match unpackcall n1 with
  | none => ⟨true, none, bytes "......", tables⟩
  | some call =>
      match unpackgrid n2 with
      | none => ⟨true, none, cstr call, tables⟩
      | some grid =>
          let ntype : Int := (n2 % 128 : Nat) - 64
          if 0 ≤ ntype ∧ ntype ≤ 62 then
            if powerOk (ntype.toNat % 10) then unpkType1 tables (cstr call) grid ntype.toNat
            else unpkType2 tables (cstr call) n2 ntype.toNat
          else if ntype < 0 then unpkType3 tables call n2 ntype
          else ⟨false, none, cstr call, tables⟩

/-- `unpk_` -/
def unpk (tables : HashTables) (message : List UInt8) : Unpacked :=
  unpkNumbers tables (unpack50 message).1 (unpack50 message).2

/-- A character of the six places, where a blank became a terminator -/
theorem callChar_cases : ∀ i < 37, callChar i = 32 ∨ isCallChar (callChar i) = true := by
  decide +kernel

theorem callChar_second : ∀ i < 36, isCallChar (callChar i) = true := by decide +kernel

theorem callChar_area : ∀ i < 10, isdigit (callChar i) = true := by decide +kernel

theorem callChar_suffix : ∀ i < 27,
    callChar (i + 10) = 32 ∨ isupper (callChar (i + 10)) = true := by
  decide +kernel

/-- The letters in front of the first blank -/
theorem cstr_suffix {suffix : List UInt8} (h : ∀ c ∈ suffix, c = 32 ∨ isupper c = true) :
    (cstr (suffix.map fun c => if c = 32 then 0 else c)).length ≤ suffix.length ∧
      ∀ c ∈ cstr (suffix.map fun c => if c = 32 then 0 else c), isupper c = true := by
  refine ⟨(List.takeWhile_sublist _).length_le.trans_eq (List.length_map _), ?_⟩
  intro c hc
  have hne := cstr_ne_zero c hc
  obtain ⟨c', hc', rfl⟩ := List.mem_map.mp (List.takeWhile_subset _ hc)
  split at hne
  · exact absurd rfl hne
  · next hsolid =>
      rw [if_neg hsolid]
      exact (h c' hc').resolve_left hsolid

theorem callChar_solid : ∀ c, isCallChar c = true → c ≠ 32 ∧ c ≠ 0 :=
  forall_byte (by decide +kernel)

theorem cstr_cons {c : UInt8} (h : c ≠ 0) (rest : List UInt8) : cstr (c :: rest) = c :: cstr rest :=
  List.takeWhile_cons_of_pos (bne_iff_ne.mpr h)

theorem cstr_terminated (text : List UInt8) : cstr (text ++ [0]) = cstr text := by
  induction text with
  | nil => rfl
  | cons c text ih =>
      by_cases hc : c = 0
      · subst hc
        rfl
      · rw [List.cons_append, cstr_cons hc, cstr_cons hc, ih]

theorem cstr_solid {text : List UInt8} (h : ∀ c ∈ text, c ≠ 0) : cstr text = text := by
  have happend := cstr_append h []
  rwa [cstr_terminated] at happend

/-- Whatever the data, what is read of a callsign has the plain form. -/
theorem unpackcall_plain {ncall : Nat} {call : List UInt8} (h : unpackcall ncall = some call) :
    PlainCall (cstr call) := by
  unfold unpackcall at h
  split at h
  · next hlt =>
      have hdigit := callChar_area (ncall / 27 / 27 / 27 % 10) (Nat.mod_lt _ (by decide))
      have hsecond := callChar_second (ncall / 27 / 27 / 27 / 10 % 36) (Nat.mod_lt _ (by decide))
      have hfirst := callChar_cases (ncall / 27 / 27 / 27 / 10 / 36) (by omega)
      have hsuffix : ∀ c ∈ [callChar (ncall / 27 / 27 % 27 + 10), callChar (ncall / 27 % 27 + 10),
          callChar (ncall % 27 + 10)], c = 32 ∨ isupper c = true := by
        simp only [List.forall_mem_cons]
        refine ⟨callChar_suffix _ (Nat.mod_lt _ (by decide)),
          callChar_suffix _ (Nat.mod_lt _ (by decide)),
          callChar_suffix _ (Nat.mod_lt _ (by decide)), fun _ h => absurd h List.not_mem_nil⟩
      simp only [Option.some_inj] at h
      generalize callChar (ncall / 27 / 27 / 27 / 10 / 36) = t0 at *
      generalize callChar (ncall / 27 / 27 / 27 / 10 % 36) = t1 at *
      generalize callChar (ncall / 27 / 27 / 27 % 10) = t2 at *
      generalize callChar (ncall / 27 / 27 % 27 + 10) = t3 at *
      generalize callChar (ncall / 27 % 27 + 10) = t4 at *
      generalize callChar (ncall % 27 + 10) = t5 at *
      obtain ⟨hsolid1, hne1⟩ := callChar_solid t1 hsecond
      obtain ⟨hsolid2, hne2⟩ := callChar_solid t2 (callsignCode_digit t2 hdigit).2
      obtain ⟨hlength, hletters⟩ := cstr_suffix hsuffix
      obtain rfl | hchar := hfirst
      · have harray : callArray [32, t1, t2, t3, t4, t5] =
            t1 :: t2 :: ([t3, t4, t5].map (fun c => if c = 32 then 0 else c) ++ [0]) := by
          simp [callArray, padRight, hsolid1, hsolid2, show (' '.toUInt8) = 32 from rfl]
        rw [← h, harray, cstr_cons hne1, cstr_cons hne2, cstr_terminated]
        exact ⟨[t1], t2, _, rfl, .inl rfl, by simpa using hsecond, hdigit, hlength, hletters⟩
      · obtain ⟨hsolid0, hne0⟩ := callChar_solid t0 hchar
        have harray : callArray [t0, t1, t2, t3, t4, t5] =
            t0 :: t1 :: t2 :: [t3, t4, t5].map (fun c => if c = 32 then 0 else c) := by
          simp [callArray, padRight, hsolid0, hsolid1, hsolid2]
        rw [← h, harray, cstr_cons hne0, cstr_cons hne1, cstr_cons hne2]
        exact ⟨[t0, t1], t2, _, rfl, .inr rfl, by simp [hchar, hsecond], hdigit, hlength,
          hletters⟩
  · cases h

theorem callChar_locator : ∀ i < 18, 65 ≤ callChar (10 + i) ∧ callChar (10 + i) ≤ 82 := by
  decide +kernel

/-- The two characters of a degree that counts in tenths of a field -/
theorem locator_places {degree : Nat} (h : degree < 180) :
    (∃ c, callChar (10 + (24 * (degree : Int)) / 240).toNat = c ∧ 65 ≤ c ∧ c ≤ 82) ∧
      ∃ c, callChar ((24 * (degree : Int) - 240 * ((24 * (degree : Int)) / 240)) / 24).toNat = c ∧
        isdigit c = true := by
  have hfield : (10 + (24 * (degree : Int)) / 240).toNat = 10 + degree / 10 := by omega
  have hsquare : ((24 * (degree : Int) - 240 * ((24 * (degree : Int)) / 240)) / 24).toNat =
      degree % 10 := by omega
  rw [hfield, hsquare]
  exact ⟨⟨_, rfl, callChar_locator _ (by omega)⟩, _, rfl,
    callChar_area _ (Nat.mod_lt _ (by decide))⟩

/-- And what is read of a locator is one. -/
theorem unpackgrid_plain {ngrid : Nat} {grid : CString} (h : unpackgrid ngrid = some grid) :
    PlainGrid grid := by
  unfold unpackgrid at h
  simp only at h
  split at h
  · next hlt =>
      rw [if_neg (by omega), if_neg (by omega), Option.some_inj] at h
      have hlong : 60 * (180 - (((ngrid / 2 ^ 7 / 180 : Nat) : Int) * 2 - 180 + 2)) / 5 =
          24 * ((179 - ngrid / 2 ^ 7 / 180 : Nat) : Int) := by omega
      have hlat : 60 * (((ngrid / 2 ^ 7 % 180 : Nat) : Int) - 90 + 90) * 2 / 5 =
          24 * ((ngrid / 2 ^ 7 % 180 : Nat) : Int) := by omega
      rw [hlong, hlat] at h
      obtain ⟨⟨c0, hc0, hletter0⟩, c2, hc2, hdigit2⟩ :=
        locator_places (show 179 - ngrid / 2 ^ 7 / 180 < 180 by omega)
      obtain ⟨⟨c1, hc1, hletter1⟩, c3, hc3, hdigit3⟩ :=
        locator_places (show ngrid / 2 ^ 7 % 180 < 180 by omega)
      rw [hc0, hc1, hc2, hc3] at h
      exact ⟨c0, c1, c2, c3, h.symm, hletter0, hletter1, hdigit2, hdigit3⟩
  · cases h

/-- A word of characters of a callsign and slashes -/
structure CallWord (limit : Nat) (callsign : CString) : Prop where
  nonempty : callsign ≠ []
  length : callsign.length ≤ limit
  chars : ∀ c ∈ callsign, isCallChar c = true ∨ c = 47

theorem PlainCall.callWord {call : CString} (h : PlainCall call) : CallWord 6 call :=
  ⟨h.ne_nil, h.length.2, fun c hc => .inl (h.callChars c hc)⟩

theorem affixChar_cases (nc : Nat) : affixChar nc = 32 ∨ isCallChar (affixChar nc) = true := by
  by_cases hlt : nc < 36
  · have hall : ∀ nc < 36, isCallChar (affixChar nc) = true := by decide +kernel
    exact .inr (hall nc hlt)
  · exact .inl (by rw [affixChar, if_neg (by omega), if_neg (by omega)])

theorem digitChar (n : Nat) (h : n < 10) : isCallChar (UInt8.ofNat (n + 48)) = true := by
  have hall : ∀ n < 10, isCallChar (UInt8.ofNat (n + 48)) = true := by decide +kernel
  exact hall n h

/-- A callsign with a slash has at most ten characters. -/
theorem unpackpfx_word {number : Nat} {call callsign : CString} (hcall : PlainCall call)
    (h : unpackpfx number call = some callsign) : CallWord 10 callsign := by
  have hword : ∀ front behind : CString, (∀ c ∈ front, isCallChar c = true) →
      (∀ c ∈ behind, isCallChar c = true) → front.length + behind.length ≤ 9 →
      CallWord 10 (copyText 20 (front ++ bytes "/" ++ behind)) := by
    intro front behind hfront hbehind hlength
    have hlong : (front ++ bytes "/" ++ behind).length ≤ 10 := by
      simp only [List.length_append, show (bytes "/").length = 1 from rfl]
      omega
    rw [copyText, List.take_of_length_le (by omega)]
    refine ⟨by simp [bytes], hlong, ?_⟩
    intro c hc
    obtain hc | hc := List.mem_append.mp hc
    · obtain hc | hc := List.mem_append.mp hc
      · exact .inl (hfront c hc)
      · exact .inr (List.mem_singleton.mp hc)
    · exact .inl (hbehind c hc)
  have htake : ∀ c ∈ call.take 6, isCallChar c = true := fun c hc =>
    hcall.callChars c (List.mem_of_mem_take hc)
  have hsix : (call.take 6).length ≤ 6 := List.length_take_le _ _
  unfold unpackpfx at h
  simp only at h
  split at h
  · cases h
    apply hword _ _ _ htake
    · have hthree := (List.takeWhile_sublist (l := [affixChar (number / 37 / 37 % 37),
        affixChar (number / 37 % 37), affixChar (number % 37)].reverse) (· ≠ 32)).length_le
      rw [List.length_reverse]
      simp only [List.length_reverse, List.length_cons, List.length_nil] at hthree
      omega
    · intro c hc
      rw [List.mem_reverse] at hc
      have hsolid := List.all_eq_true.mp List.all_takeWhile c hc
      have hmem := List.mem_reverse.mp (List.takeWhile_subset _ hc)
      simp only [List.mem_cons, List.not_mem_nil, or_false] at hmem
      obtain rfl | rfl | rfl := hmem
      all_goals exact (affixChar_cases _).resolve_left (by simpa using hsolid)
  · split at h
    · next hletter =>
        cases h
        apply hword _ _ htake
        · simpa using (affixChar_cases (number - 60000)).resolve_left (by
            have hall : ∀ nc < 36, affixChar nc ≠ 32 := by decide +kernel
            exact hall _ (by omega))
        · simp only [List.length_singleton]
          omega
    · split at h
      · cases h
        apply hword _ _ htake
        · simp only [List.forall_mem_cons]
          exact ⟨digitChar _ (by omega), digitChar _ (by omega),
            fun _ h => absurd h List.not_mem_nil⟩
        · simp only [List.length_cons, List.length_nil]
          omega
      · cases h

/-- A power that is printed -/
def IsPower (ndbm : Nat) : Prop := ndbm ≤ 60 ∧ powerOk (ndbm % 10) = true

/-- A locator of six characters as a message with a hash is printed with: two letters, two
digits, and up to two characters that are not tested -/
structure HashedGrid (grid6 : CString) : Prop where
  split : ∃ c0 c1 c2 c3 rest, grid6 = c0 :: c1 :: c2 :: c3 :: rest ∧ rest.length ≤ 2 ∧
    isalpha c0 = true ∧ isalpha c1 = true ∧ isdigit c2 = true ∧ isdigit c3 = true
  chars : ∀ c ∈ grid6, isalnum c = true

/-- The callsign that is printed for a hash -/
def HashTables.bracketed (tables : HashTables) (ihash : Nat) : CString :=
  if tables.hashtab ihash ≠ [] then bytes "<" ++ tables.hashtab ihash ++ bytes ">"
  else padLeft 5 (bytes "<...>")

/-- The entry of a callsign, and of a locator when there is one -/
def HashTables.store (tables : HashTables) (callsign : CString) (grid : Option CString) :
    HashTables where
  hashtab := Function.update tables.hashtab (callHash callsign) callsign
  loctab := grid.elim tables.loctab (Function.update tables.loctab (callHash callsign))

/-- All that `unpk_` can make of a message: one of the three types with its texts in form,
nothing that is printed, or a line that is printed without a message. -/
inductive UnpkOutcome (tables : HashTables) (n2 : Nat) : Unpacked → Prop where
  | silent {unprinted : Option WsprMessage} {callsign : CString} :
      UnpkOutcome tables n2 ⟨true, unprinted, callsign, tables⟩
  | type1 {callsign grid : CString} {ndbm : Nat} (hcall : PlainCall callsign)
      (hgrid : PlainGrid grid) (hndbm : IsPower ndbm) :
      UnpkOutcome tables n2
        ⟨false, some (.type1 callsign grid ndbm), callsign, tables.store callsign (some grid)⟩
  | type2 {callsign : CString} {ndbm : Nat} (hcall : CallWord 10 callsign) (hndbm : IsPower ndbm) :
      UnpkOutcome tables n2
        ⟨false, some (.type2 callsign ndbm), callsign, tables.store callsign none⟩
  | type3 {grid6 : CString} {ndbm : Nat} (hgrid : HashedGrid grid6) (hndbm : IsPower ndbm) :
      UnpkOutcome tables n2
        ⟨false, some (.type3 (tables.bracketed (n2 / 128)) grid6 ndbm),
          tables.bracketed (n2 / 128), tables⟩
  | blank {callsign : CString} (hcall : PlainCall callsign)
      (hlast : n2 % 128 = 127) :
      UnpkOutcome tables n2 ⟨false, none, callsign, tables⟩

/-- A power that is none stands for a prefix or suffix. The message is not printed when the
number is that of no prefix, or when the power is none even without what `nadd` added to it. -/
theorem unpkType2_outcome {tables : HashTables} {callsign : CString}
    (hcall : PlainCall callsign) {n2 ntype : Nat} (hntype : ntype ≤ 62)
    (hnu : powerOk (ntype % 10) = false) :
    UnpkOutcome tables n2 (unpkType2 tables callsign n2 ntype) := by
  have hcases : ∀ nu < 10, powerOk nu = false →
      nu = 6 ∨ ((nu = 1 ∨ nu = 4 ∨ nu = 8) ∨ nu = 2 ∨ nu = 5 ∨ nu = 9) := by
    decide
  unfold unpkType2
  simp only
  split
  · exact .silent
  · next heard hheard =>
      have hlt : ntype % 10 ≠ 6 := by
        intro hsix
        rw [hsix, unpackpfx] at hheard
        simp only [show ¬ 6 > 7 by decide, if_false, show 6 > 3 by decide, if_true] at hheard
        rw [if_neg (by omega), if_neg (by omega), if_neg (by omega)] at hheard
        cases hheard
      have hpower : IsPower (ntype - if ntype % 10 > 7 then ntype % 10 - 7
          else if ntype % 10 > 3 then ntype % 10 - 3 else ntype % 10) := by
        obtain hsix | hnu := hcases _ (Nat.mod_lt _ (by decide)) hnu
        · exact absurd hsix hlt
        · simp only [IsPower, powerOk, decide_eq_true_eq]
          split
          · omega
          · split <;> omega
      rw [if_pos (.inl hpower.2)]
      exact .type2 (unpackpfx_word hcall hheard) hpower

theorem isalnum_callChar : ∀ c, isCallChar c = true → isalnum c = true :=
  forall_byte (by decide +kernel)

/-- A locator that passes the four tests has its first four characters. -/
theorem hashedGrid_of_tests {c : UInt8} {text : CString}
    (hchars : ∀ c ∈ text, isCallChar c = true) (hlength : text.length ≤ 5)
    (h0 : isalpha ((c :: text).getD 0 0) = true) (h1 : isalpha ((c :: text).getD 1 0) = true)
    (h2 : isdigit ((c :: text).getD 2 0) = true) (h3 : isdigit ((c :: text).getD 3 0) = true) :
    HashedGrid (cstr (c :: text)) := by
  have hsolid : ∀ c' ∈ c :: text, isalnum c' = true := by
    intro c' hc'
    obtain rfl | hc' := List.mem_cons.mp hc'
    · rw [List.getD_cons_zero] at h0
      rw [isalnum, h0, Bool.true_or]
    · exact isalnum_callChar c' (hchars c' hc')
  have hne : ∀ c' ∈ c :: text, c' ≠ 0 := by
    intro c' hc' hzero
    have halnum := hsolid c' hc'
    rw [hzero] at halnum
    exact absurd halnum (by decide)
  rw [cstr_solid hne]
  refine ⟨?_, hsolid⟩
  cases text with
  | nil => exact absurd h1 (show isalpha 0 ≠ true by decide)
  | cons c1 text =>
      cases text with
      | nil => exact absurd h2 (show isdigit 0 ≠ true by decide)
      | cons c2 text =>
          cases text with
          | nil => exact absurd h3 (show isdigit 0 ≠ true by decide)
          | cons c3 rest =>
              simp only [List.length_cons] at hlength
              exact ⟨c, c1, c2, c3, rest, rfl, by omega, h0, h1, h2, h3⟩

/-- A negative power stands for a hash: the callsign comes from the table, and the six
characters of the packed callsign are the locator, turned by one place. -/
theorem unpkType3_outcome {tables : HashTables} {n2 : Nat} {call : List UInt8}
    (hcall : PlainCall (cstr call)) {ntype : Int}
    (hntype : ntype = (n2 % 128 : Nat) - 64) (hneg : ntype < 0) :
    UnpkOutcome tables n2 (unpkType3 tables call n2 ntype) := by
  have hihash : (((n2 : Int) - ntype - 64) / 128).toNat =
      n2 / 128 := by omega
  have hbracketed : (unpkType3 tables call n2 ntype).callsign =
      tables.bracketed (n2 / 128) := by
    rw [← hihash]
    rfl
  cases hprint : (unpkType3 tables call n2 ntype).noprint with
  | true =>
      have hsilent : unpkType3 tables call n2 ntype =
          ⟨true, (unpkType3 tables call n2 ntype).message,
            (unpkType3 tables call n2 ntype).callsign, tables⟩ := by
        rw [← hprint]
        rfl
      rw [hsilent]
      exact .silent
  | false =>
      have htests := hprint
      simp only [unpkType3, Bool.or_eq_false_iff, Bool.not_eq_false', Bool.or_eq_true,
        decide_eq_true_eq, decide_eq_false_iff_not] at htests
      obtain ⟨⟨⟨⟨⟨hpower, h0⟩, h1⟩, h2⟩, h3⟩, hlast⟩ := htests
      have hndbm : IsPower (-(ntype + 1)).toNat := by
        obtain hnu | hten := hpower
        · refine ⟨?_, hnu⟩
          simp only [powerOk, decide_eq_true_eq] at hnu
          omega
        · omega
      have hgrid := hashedGrid_of_tests (fun c hc => hcall.callChars c (List.mem_of_mem_take hc))
        (List.length_take_le _ _) h0 h1 h2 h3
      have hprinted : unpkType3 tables call n2 ntype =
          ⟨false, some (.type3 (tables.bracketed (n2 / 128))
            (cstr (call.getD 5 0 :: (cstr call).take 5)) (-(ntype + 1)).toNat),
            tables.bracketed (n2 / 128), tables⟩ := by
        rw [← hbracketed, ← hprint]
        rfl
      rw [hprinted]
      exact .type3 hgrid hndbm

/-- Whatever the two numbers of a message are, what is unpacked is one of the outcomes; the
proofs about the tables and the printed texts look no further than these. -/
theorem unpkNumbers_outcome (tables : HashTables) (n1 n2 : Nat) :
    UnpkOutcome tables n2 (unpkNumbers tables n1 n2) := by
  unfold unpkNumbers
  simp only
  split
  · exact .silent
  · next call hcall =>
      have hplain := unpackcall_plain hcall
      split
      · exact .silent
      · next grid hgrid =>
          split
          · next hrange =>
              by_cases hnu : powerOk ((((n2 % 128 : Nat) : Int) - 64).toNat % 10) = true
              · rw [if_pos hnu]
                refine .type1 hplain (unpackgrid_plain hgrid) ⟨?_, hnu⟩
                simp only [powerOk, decide_eq_true_eq] at hnu
                omega
              · rw [if_neg hnu]
                exact unpkType2_outcome hplain (by omega) (Bool.eq_false_iff.mpr hnu)
          · split
            · next hneg => exact unpkType3_outcome hplain rfl hneg
            · exact .blank hplain (by omega)

theorem unpk_outcome (tables : HashTables) (message : List UInt8) :
    UnpkOutcome tables (unpack50 message).2 (unpk tables message) :=
  unpkNumbers_outcome tables _ _

/-- Each callsign in the table stands at its hash, and each locator belongs to a callsign. -/
structure HashTables.WellFormed (tables : HashTables) : Prop where
  callsign : ∀ slot, tables.hashtab slot ≠ [] →
    CallWord 10 (tables.hashtab slot) ∧ callHash (tables.hashtab slot) = slot
  locator : ∀ slot, tables.loctab slot ≠ [] →
    PlainGrid (tables.loctab slot) ∧ tables.hashtab slot ≠ []

theorem HashTables.empty_wellFormed : HashTables.empty.WellFormed :=
  ⟨fun _ hne => absurd rfl hne, fun _ hne => absurd rfl hne⟩

/-- A stored callsign stands at its own hash and fits its entry, and so does its locator; the
other entries stay as they are. -/
theorem HashTables.WellFormed.store {tables : HashTables} (h : tables.WellFormed)
    {callsign : CString} (hcall : CallWord 10 callsign) {grid : Option CString}
    (hgrid : ∀ text ∈ grid, PlainGrid text) : (tables.store callsign grid).WellFormed := by
  have hself : (tables.store callsign grid).hashtab (callHash callsign) = callsign :=
    Function.update_self _ _ _
  have hother : ∀ slot, slot ≠ callHash callsign →
      (tables.store callsign grid).hashtab slot = tables.hashtab slot := fun slot hslot =>
    Function.update_of_ne hslot _ _
  refine ⟨?_, ?_⟩
  · intro slot hne
    by_cases hslot : slot = callHash callsign
    · rw [hslot, hself]
      exact ⟨hcall, rfl⟩
    · rw [hother slot hslot] at hne ⊢
      exact h.callsign slot hne
  · intro slot hne
    have hkept : tables.loctab slot ≠ [] → PlainGrid (tables.loctab slot) ∧
        (tables.store callsign grid).hashtab slot ≠ [] := by
      intro hne
      refine ⟨(h.locator slot hne).1, ?_⟩
      by_cases hslot : slot = callHash callsign
      · rw [hslot, hself]
        exact hcall.nonempty
      · rw [hother slot hslot]
        exact (h.locator slot hne).2
    cases grid with
    | none => exact hkept hne
    | some text =>
        by_cases hslot : slot = callHash callsign
        · subst hslot
          rw [hself]
          refine ⟨?_, hcall.nonempty⟩
          have htext : (tables.store callsign (some text)).loctab (callHash callsign) = text :=
            Function.update_self _ _ _
          rw [htext]
          exact hgrid text rfl
        · have hsame : (tables.store callsign (some text)).loctab slot = tables.loctab slot :=
            Function.update_of_ne hslot _ _
          rw [hsame] at hne ⊢
          exact hkept hne

theorem CallWord.mono {limit limit' : Nat} {callsign : CString} (h : CallWord limit callsign)
    (hle : limit ≤ limit') : CallWord limit' callsign :=
  ⟨h.nonempty, h.length.trans hle, h.chars⟩

/-- Whatever the data, the tables stay well-formed. -/
theorem HashTables.WellFormed.unpk {tables : HashTables} (h : tables.WellFormed)
    (message : List UInt8) : (unpk tables message).tables.WellFormed := by
  have houtcome := unpk_outcome tables message
  generalize Wspr.unpk tables message = unpacked at *
  cases houtcome with
  | silent => exact h
  | type1 hcall hgrid _ =>
      apply h.store (hcall.callWord.mono (by decide))
      rintro _ ⟨⟩
      exact hgrid
  | type2 hcall _ => exact h.store hcall fun _ hnone => absurd hnone (Option.not_mem_none _)
  | type3 _ _ => exact h
  | blank _ _ => exact h

theorem CallWord.isWord {limit : Nat} {callsign : CString} (h : CallWord limit callsign) :
    IsWord limit callsign := by
  have hspace : ∀ c, isCallChar c = true → isspace c = false := forall_byte (by decide +kernel)
  refine ⟨h.nonempty, h.length, ?_⟩
  intro c hc
  obtain hchar | rfl := h.chars c hc
  · exact hspace c hchar
  · rfl

/-- What is printed for a hash is one word that fits into the field of the callsign: a stored
callsign in brackets, or `<...>`. -/
theorem bracketed_word {tables : HashTables} (h : tables.WellFormed) (slot : Nat) :
    IsWord 12 (tables.bracketed slot) := by
  unfold HashTables.bracketed
  split
  · next hne =>
      have hword := (h.callsign slot hne).1.isWord
      refine ⟨by simp [bytes], ?_, ?_⟩
      · have hlength := hword.length
        simp only [List.length_append, show (bytes "<").length = 1 from rfl,
          show (bytes ">").length = 1 from rfl]
        omega
      · intro c hc
        simp only [List.mem_append] at hc
        obtain (hc | hc) | hc := hc
        · exact (show ∀ c ∈ bytes "<", isspace c = false by decide +kernel) c hc
        · exact hword.solid c hc
        · exact (show ∀ c ∈ bytes ">", isspace c = false by decide +kernel) c hc
  · decide

theorem HashedGrid.isWord {grid6 : CString} (h : HashedGrid grid6) : IsWord 6 grid6 := by
  have hspace : ∀ c, isalnum c = true → isspace c = false := forall_byte (by decide +kernel)
  obtain ⟨c0, c1, c2, c3, rest, rfl, hlength, -⟩ := h.split
  refine ⟨List.cons_ne_nil _ _, ?_, fun c hc => hspace c (h.chars c hc)⟩
  simp only [List.length_cons]
  omega

theorem PlainGrid.isWord {grid : CString} (h : PlainGrid grid) : IsWord 4 grid := by
  have hletter : ∀ c : UInt8, 65 ≤ c ∧ c ≤ 82 → isspace c = false :=
    forall_byte (by decide +kernel)
  have hdigit : ∀ c, isdigit c = true → isspace c = false := forall_byte (by decide +kernel)
  obtain ⟨c0, c1, c2, c3, rfl, h0, h1, h2, h3⟩ := h.split
  refine ⟨List.cons_ne_nil _ _, le_rfl, ?_⟩
  simp only [List.forall_mem_cons]
  exact ⟨hletter c0 h0, hletter c1 h1, hdigit c2 h2, hdigit c3 h3,
    fun _ h => absurd h List.not_mem_nil⟩

/-- **What is printed has the form that the line of the spots file needs**, but for the one
number of the last seven bits that no branch takes. -/
theorem printed_wellFormed {tables : HashTables} (h : tables.WellFormed) (message : List UInt8)
    (hprint : (unpk tables message).noprint = false) :
    (unpack50 message).2 % 128 = 127 ∧ (unpk tables message).message = none ∨
      ∃ printed, (unpk tables message).message = some printed ∧ printed.WellFormed := by
  have houtcome := unpk_outcome tables message
  generalize unpk tables message = unpacked at *
  cases houtcome with
  | silent => cases hprint
  | type1 hcall hgrid hndbm =>
      exact .inr ⟨_, rfl, hcall.callWord.isWord, hgrid.isWord, hndbm.1.trans_lt (by decide)⟩
  | type2 hcall hndbm =>
      exact .inr ⟨_, rfl, hcall.isWord.mono (by decide), hndbm.1.trans_lt (by decide)⟩
  | type3 hgrid hndbm =>
      exact .inr ⟨_, rfl, bracketed_word h _, hgrid.isWord, hndbm.1.trans_lt (by decide)⟩
  | blank _ hlast => exact .inl ⟨hlast, rfl⟩

end AirspyhfWsprd.Wspr
