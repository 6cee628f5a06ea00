import AirspyhfWsprd.Wspr.ChannelSymbols

/-!
The text of a message is packed by `get_wspr_channel_symbols` and unpacked by `unpk_`: which
messages come back as they were sent.
-/

namespace AirspyhfWsprd.Wspr

open Library

/-- A character of a callsign is none of those that the packing looks for. -/
theorem callChar_unmarked {c : UInt8} (h : isCallChar c = true) {marks : CString}
    (hmarks : marks ⊆ bytes "<> /") : c ∉ marks := by
  have hall : ∀ c, isCallChar c = true → c ∉ bytes "<> /" := forall_byte (by decide +kernel)
  exact fun hmem => hall c h (hmarks hmem)

theorem cdbm_token (ndbm : Nat) : nextToken (bytes " ") (cdbm ndbm) = some (decimal ndbm, []) := by
  have hdigit : ∀ c, isdigit c = true → c ∉ bytes " " := forall_byte (by decide +kernel)
  apply nextToken_last
  · intro c hc
    rw [List.eq_of_mem_replicate hc]
    decide
  · exact decimal_ne_nil ndbm
  · exact fun c hc => hdigit c (digit_of_mem_decimal hc)

theorem cdbm_chars {ndbm : Nat} : ∀ c ∈ cdbm ndbm, c = 32 ∨ isdigit c = true := by
  intro c hc
  obtain hc | hc := List.mem_append.mp hc
  · exact .inl (List.eq_of_mem_replicate hc)
  · exact .inr (digit_of_mem_decimal hc)

theorem cdbm_length {ndbm : Nat} (h : IsPower ndbm) : (cdbm ndbm).length = 2 := by
  have hword : IsWord 2 (decimal ndbm) :=
    decimal_word (by decide) (h.1.trans_lt (by decide))
  exact padLeft_length hword.length

/-- The power that is read back from the text -/
theorem roundedPower_power {ndbm : Nat} (h : IsPower ndbm) :
    roundedPower (atoi (decimal ndbm)) = ndbm := by
  obtain ⟨hle, hok⟩ := h
  have hall : ∀ ndbm ≤ 60, powerOk (ndbm % 10) = true → roundedPower ndbm = ndbm := by
    decide +kernel
  rw [atoi_decimal]
  exact hall ndbm hle hok

theorem unpackgrid_isSome {ngrid : Nat} : (unpackgrid ngrid).isSome = true ↔
    ngrid / 2 ^ 7 < 32400 := by
  unfold unpackgrid
  simp only
  split
  · next h => simpa using h
  · next h => simpa using h

/-- What is packed reaches the branches of `unpk_` as two numbers. -/
theorem unpk_packData (tables : HashTables) {n : Nat} {m : Int} {call : List UInt8}
    (hcall : unpackcall (n % 2 ^ 28) = some call) (hgrid : m % 2 ^ 22 / 2 ^ 7 < 32400) :
    ∃ grid, unpackgrid (m % 2 ^ 22).toNat = some grid ∧
      unpk tables (packData n m) =
        if 0 ≤ m % 128 - 64 ∧ m % 128 - 64 ≤ 62 then
          if powerOk ((m % 128 - 64).toNat % 10) then
            unpkType1 tables (cstr call) grid (m % 128 - 64).toNat
          else unpkType2 tables (cstr call) (m % 2 ^ 22).toNat (m % 128 - 64).toNat
        else if m % 128 - 64 < 0 then
          unpkType3 tables call (m % 2 ^ 22).toNat (m % 128 - 64)
        else ⟨false, none, cstr call, tables⟩ := by
  obtain ⟨grid, hsome⟩ := Option.isSome_iff_exists.mp
    (unpackgrid_isSome.mpr (show (m % 2 ^ 22).toNat / 2 ^ 7 < 32400 by omega))
  have hlow : (((m % 2 ^ 22).toNat % 128 : Nat) : Int) = m % 128 := by omega
  refine ⟨grid, hsome, ?_⟩
  rw [unpk, unpack50_packData]
  simp only [unpkNumbers, hcall, hsome, hlow]

/-- The text of a message of type 1 is short enough that `call_loc_pow` has it whole, with
single blanks between its words. -/
theorem type1_text {callsign grid : CString} {ndbm : Nat} (hcall : PlainCall callsign)
    (hgrid : PlainGrid grid) (hndbm : IsPower ndbm) :
    (WsprMessage.type1 callsign grid ndbm).callLocPow =
      callsign ++ 32 :: (grid ++ 32 :: cdbm ndbm) := by
  have hlength := hcall.length
  have hgridLength : grid.length = 4 := by
    obtain ⟨c0, c1, c2, c3, rfl, -⟩ := hgrid.split
    rfl
  have htext : callsign ++ bytes " " ++ grid ++ bytes " " ++ cdbm ndbm =
      callsign ++ 32 :: (grid ++ 32 :: cdbm ndbm) := by
    simp [show bytes " " = [32] from rfl]
  rw [WsprMessage.callLocPow, htext]
  apply List.take_of_length_le
  simp only [List.length_append, List.length_cons, hgridLength, cdbm_length hndbm]
  omega

theorem PlainGrid.callChars {grid : CString} (h : PlainGrid grid) :
    grid.length = 4 ∧ ∀ c ∈ grid, isCallChar c = true := by
  have hletter : ∀ c : UInt8, 65 ≤ c ∧ c ≤ 82 → isCallChar c = true :=
    forall_byte (by decide +kernel)
  obtain ⟨c0, c1, c2, c3, rfl, h0, h1, h2, h3⟩ := h.split
  refine ⟨rfl, ?_⟩
  simp only [List.forall_mem_cons]
  exact ⟨hletter c0 h0, hletter c1 h1, (callsignCode_digit c2 h2).2, (callsignCode_digit c3 h3).2,
    fun _ h => absurd h List.not_mem_nil⟩

/-- The words of a callsign with a locator -/
theorem packMessage_type1 {callsign grid : CString} {ndbm : Nat} (hcall : PlainCall callsign)
    (hthree : 3 ≤ callsign.length) (hgrid : PlainGrid grid) :
    packMessage (callsign ++ 32 :: (grid ++ 32 :: cdbm ndbm)) =
      .packed (packCall callsign) (packGrid4Power (gridCodes grid) ndbm) := by
  obtain ⟨hfour, hgridChars⟩ := hgrid.callChars
  have hdigit : ∀ c, isdigit c = true → isCallChar c = true := fun c hc =>
    (callsignCode_digit c hc).2
  have hchars : ∀ c ∈ callsign ++ 32 :: (grid ++ 32 :: cdbm ndbm),
      c = 32 ∨ isCallChar c = true := by
    intro c hc
    simp only [List.mem_append, List.mem_cons] at hc
    obtain hc | rfl | hc | rfl | hc := hc
    · exact .inr (hcall.callChars c hc)
    · exact .inl rfl
    · exact .inr (hgridChars c hc)
    · exact .inl rfl
    · exact (cdbm_chars c hc).imp_right (hdigit c)
  have hslash : ∀ c ∈ callsign ++ 32 :: (grid ++ 32 :: cdbm ndbm), c ∉ bytes "/" := by
    intro c hc
    obtain rfl | hchar := hchars c hc
    · decide
    · exact callChar_unmarked hchar (by decide)
  have hbracket : ∀ c ∈ callsign ++ 32 :: (grid ++ 32 :: cdbm ndbm), c ∉ bytes "<" := by
    intro c hc
    obtain rfl | hchar := hchars c hc
    · decide
    · exact callChar_unmarked hchar (by decide)
  have hblank : strcspn (callsign ++ 32 :: (grid ++ 32 :: cdbm ndbm)) (bytes " ") =
      callsign.length := by
    rw [strcspn_append (fun c hc => callChar_unmarked (hcall.callChars c hc) (by decide)),
      strcspn_cons (by decide), Nat.add_zero]
  have hfirst : nextToken (bytes " ") (callsign ++ 32 :: (grid ++ 32 :: cdbm ndbm)) =
      some (callsign, grid ++ 32 :: cdbm ndbm) :=
    nextToken_word (fun c hc => absurd hc List.not_mem_nil) hcall.ne_nil
      (fun c hc => callChar_unmarked (hcall.callChars c hc) (by decide)) (by decide) _
  have hsecond : nextToken (bytes " ") (grid ++ 32 :: cdbm ndbm) = some (grid, cdbm ndbm) :=
    nextToken_word (fun c hc => absurd hc List.not_mem_nil)
      (List.ne_nil_of_length_pos (by omega))
      (fun c hc => callChar_unmarked (hgridChars c hc) (by decide)) (by decide) _
  have hcodes : ∀ behind : CString, gridCodes (grid ++ behind) = gridCodes grid := by
    obtain ⟨c0, c1, c2, c3, rfl, -⟩ := hgrid.split
    exact fun _ => rfl
  have hpack : packType1 (callsign ++ 32 :: (grid ++ 32 :: cdbm ndbm)) =
      some (packCall callsign, packGrid4Power (gridCodes grid) ndbm) := by
    simp only [packType1, hfirst, hsecond, cdbm_token, Option.bind_eq_bind, Option.bind_some,
      hcodes, atoi_decimal]
  have hlength := hcall.length
  simp only [packMessage, hblank, strcspn_none hslash, strcspn_none hbracket, hpack]
  rw [if_pos ⟨hthree, by omega, trivial, trivial⟩]
  rfl

theorem PlainCall.cstr_padded {call : CString} (h : PlainCall call) :
    cstr (call ++ List.replicate (6 - call.length) 0) = call := by
  have hne : ∀ c ∈ call, c ≠ 0 := fun c hc => (callChar_solid c (h.callChars c hc)).2
  generalize 6 - call.length = count
  cases count with
  | zero =>
      rw [List.replicate_zero, List.append_nil]
      exact cstr_solid hne
  | succ count => exact cstr_append hne _

/-- **A callsign with a locator comes back as it was sent.** -/
theorem unpk_type1 (tables : HashTables) {callsign grid : CString} {ndbm : Nat}
    (hcall : PlainCall callsign) (hgrid : PlainGrid grid) (hndbm : IsPower ndbm) :
    unpk tables (packData (packCall callsign) (packGrid4Power (gridCodes grid) ndbm)) =
      ⟨false, some (.type1 callsign grid ndbm), callsign, tables.store callsign (some grid)⟩ := by
  obtain ⟨hlt, hunpack⟩ := hcall.unpackcall_packCall
  have hle := hndbm.1
  obtain ⟨hpos, hbound, hlow, hunpackgrid⟩ :=
    hgrid.unpackgrid_packGrid4Power (show -64 ≤ (ndbm : Int) ∧ (ndbm : Int) < 64 by omega)
  generalize packGrid4Power (gridCodes grid) ndbm = m at *
  have hmod : m % 2 ^ 22 = m := by omega
  have hcheck := unpackgrid_isSome.mp (Option.isSome_iff_exists.mpr ⟨grid, hunpackgrid⟩)
  obtain ⟨grid', hgrid', hunpk⟩ := unpk_packData tables (by rwa [Nat.mod_eq_of_lt hlt])
    (show m % 2 ^ 22 / 2 ^ 7 < 32400 by omega)
  rw [hmod, hunpackgrid, Option.some_inj] at hgrid'
  have hntype : m % 128 - 64 = ndbm := by omega
  rw [hunpk, ← hgrid', hntype, hcall.cstr_padded, if_pos (by omega), Int.toNat_natCast,
    if_pos hndbm.2]
  rfl

theorem callLocPow_take (printed : WsprMessage) :
    printed.callLocPow.take 23 = printed.callLocPow := by
  apply List.take_of_length_le
  cases printed <;> exact (List.length_take_le _ _).trans (by decide)

theorem getWsprChannelSymbols_packed (tmp : List UInt8) (tables : HashTables)
    {printed : WsprMessage} {n : Nat} {m : Int} (h : packMessage printed.callLocPow = .packed n m) :
    getWsprChannelSymbols tmp tables printed.callLocPow =
      .sent (packData n m) (channelSymbols tmp (packData n m))
        (unpk tables (packData n m)).tables := by
  rw [getWsprChannelSymbols, callLocPow_take, h]

/-- The message of a callsign with a locator reads back from the symbols it is sent with, and
the sender stores the station in its tables as a receiver does. -/
theorem type1_round_trip (tmp : List UInt8) (tables : HashTables) {callsign grid : CString}
    {ndbm : Nat} (hcall : PlainCall callsign) (hthree : 3 ≤ callsign.length)
    (hgrid : PlainGrid grid) (hndbm : IsPower ndbm) :
    ∃ data, getWsprChannelSymbols tmp tables (WsprMessage.type1 callsign grid ndbm).callLocPow =
        .sent data (channelSymbols tmp data) (tables.store callsign (some grid)) ∧
      ∀ receiver, unpk receiver data = ⟨false, some (.type1 callsign grid ndbm), callsign,
        receiver.store callsign (some grid)⟩ := by
  have hunpk := fun receiver => unpk_type1 receiver hcall hgrid hndbm
  have hmessage : packMessage (WsprMessage.type1 callsign grid ndbm).callLocPow =
      .packed (packCall callsign) (packGrid4Power (gridCodes grid) ndbm) := by
    rw [type1_text hcall hgrid hndbm, packMessage_type1 hcall hthree hgrid]
  refine ⟨_, ?_, hunpk⟩
  rw [getWsprChannelSymbols_packed tmp tables hmessage, hunpk]

theorem type1_round_trip_K1ABC :
    ∃ data, getWsprChannelSymbols (List.replicate 162 0) HashTables.empty
        (WsprMessage.type1 (bytes "K1ABC") (bytes "FN42") 37).callLocPow =
        .sent data (channelSymbols (List.replicate 162 0) data)
          (HashTables.empty.store (bytes "K1ABC") (some (bytes "FN42"))) ∧
      ∀ receiver, unpk receiver data =
        ⟨false, some (.type1 (bytes "K1ABC") (bytes "FN42") 37), bytes "K1ABC",
          receiver.store (bytes "K1ABC") (some (bytes "FN42"))⟩ :=
  type1_round_trip _ _
    ⟨bytes "K", 49, bytes "ABC", rfl, .inl rfl, by decide +kernel, by decide, by decide,
      by decide +kernel⟩
    (by decide) ⟨70, 78, 52, 50, rfl, by decide, by decide, by decide, by decide⟩
    ⟨by decide, by decide⟩

/-- A callsign with a prefix or suffix is a word of at most ten characters with one slash, and
what stands in front of the slash has only letters and digits. -/
theorem CompoundCall.shape {callsign : CString} (h : CompoundCall callsign) :
    CallWord 10 callsign ∧ ∃ front rest, callsign = front ++ 47 :: rest ∧ front ≠ [] ∧
      ∀ c ∈ front, isCallChar c = true := by
  have hword : ∀ front rest : CString, front ≠ [] → (∀ c ∈ front, isCallChar c = true) →
      (∀ c ∈ rest, isCallChar c = true) → front.length + rest.length ≤ 9 →
      CallWord 10 (front ++ 47 :: rest) := by
    intro front rest hne hfront hrest hlength
    refine ⟨List.append_ne_nil_of_left_ne_nil hne _, ?_, ?_⟩
    · rw [List.length_append, List.length_cons]
      omega
    · intro c hc
      obtain hc | hc := List.mem_append.mp hc
      · exact .inl (hfront c hc)
      · obtain rfl | hc := List.mem_cons.mp hc
        · exact .inr rfl
        · exact .inl (hrest c hc)
  cases h with
  | withPrefix hne hlength hpfx hcall hthree =>
      have hsix := hcall.length
      exact ⟨hword _ _ hne hpfx hcall.callChars (by omega), _, _, rfl, hne, hpfx⟩
  | withSuffix hcall hc =>
      have hsix := hcall.length
      refine ⟨hword _ _ hcall.ne_nil hcall.callChars (by simpa using hc) ?_, _, _, rfl,
        hcall.ne_nil, hcall.callChars⟩
      simp only [List.length_singleton]
      omega
  | withDigits hcall ha hb =>
      have hsix := hcall.length
      refine ⟨hword _ _ hcall.ne_nil hcall.callChars ?_ ?_, _, _, rfl, hcall.ne_nil,
        hcall.callChars⟩
      · simp [(callsignCode_digit _ ha).2, (callsignCode_digit _ hb).2]
      · simp only [List.length_cons, List.length_nil]
        omega

theorem CallWord.unmarked {limit : Nat} {callsign : CString} (h : CallWord limit callsign)
    {marks : CString} (hmarks : marks ⊆ bytes "<> ") : ∀ c ∈ callsign, c ∉ marks := by
  intro c hc
  obtain hchar | rfl := h.chars c hc
  · exact callChar_unmarked hchar fun mark hmark =>
      (show bytes "<> " ⊆ bytes "<> /" by decide) (hmarks hmark)
  · exact fun hmem => (show (47 : UInt8) ∉ bytes "<> " by decide) (hmarks hmem)

/-- What stands behind the callsign when the power has been read -/
def powerMemory (ndbm : Nat) : CString :=
  (cdbm ndbm).takeWhile (· = 32) ++ decimal ndbm ++ [0]

/-- The words of a callsign with a slash -/
theorem packMessage_type2 {callsign call : CString} {ndbm : Nat} (h : CompoundCall callsign)
    (hndbm : IsPower ndbm) {m nadd : Int}
    (hsent : PrefixSent callsign (powerMemory ndbm) call m nadd) :
    packMessage (callsign ++ 32 :: cdbm ndbm) =
      .packed (packCall call) (128 * m + (ndbm + 1 + nadd) + 64) := by
  obtain ⟨hword, front, rest, hsplit, hne, hfront⟩ := h.shape
  have hslash : strcspn (callsign ++ 32 :: cdbm ndbm) (bytes "/") = front.length := by
    rw [hsplit, List.append_assoc, List.cons_append, strcspn_slash hfront]
  have hlt : front.length < callsign.length := by
    rw [hsplit, List.length_append, List.length_cons]
    omega
  have hmlen : callsign.length < (callsign ++ 32 :: cdbm ndbm).length := by
    rw [List.length_append, List.length_cons]
    omega
  have hbracket : strcspn (callsign ++ 32 :: cdbm ndbm) (bytes "<") =
      (callsign ++ 32 :: cdbm ndbm).length := by
    apply strcspn_none
    intro c hc
    obtain hc | hc := List.mem_append.mp hc
    · exact hword.unmarked (by decide) c hc
    · obtain rfl | hc := List.mem_cons.mp hc
      · decide
      · obtain rfl | hdigit := cdbm_chars c hc
        · decide
        · exact callChar_unmarked (callsignCode_digit c hdigit).2 (by decide)
  have hfirst : nextToken (bytes " ") (callsign ++ 32 :: cdbm ndbm) =
      some (callsign, cdbm ndbm) :=
    nextToken_word (fun c hc => absurd hc List.not_mem_nil) hword.nonempty
      (hword.unmarked (by decide)) (by decide) _
  have hpack : packType2 callsign (cdbm ndbm) =
      some (packCall call, 128 * m + (ndbm + 1 + nadd) + 64) := by
    have hpacked := hsent.packed
    rw [powerMemory] at hpacked
    simp only [packType2, cdbm_token, Option.bind_eq_bind, Option.bind_some, hpacked,
      roundedPower_power hndbm]
  have hpositive := List.length_pos_of_ne_nil hne
  simp only [packMessage, hslash, hbracket, hfirst, hpack]
  rw [if_neg (by omega), if_neg (by omega), if_pos (by omega), if_neg (by omega)]
  rfl

/-- The branch of a callsign with a slash, of what was added to the power -/
theorem unpkType2_sent (tables : HashTables) (call : CString) (n2 : Nat) {ndbm nadd : Nat}
    (hndbm : IsPower ndbm) (hnadd : nadd = 0 ∨ nadd = 1) :
    unpkType2 tables call n2 (ndbm + 1 + nadd) =
      match unpackpfx (n2 / 128 + 32768 * nadd) call with
      | none => ⟨true, none, call, tables⟩
      | some heard =>
          ⟨false, some (.type2 heard ndbm), heard, tables.store heard none⟩ := by
  have hadded : (if (ndbm + 1 + nadd) % 10 > 7 then (ndbm + 1 + nadd) % 10 - 7
      else if (ndbm + 1 + nadd) % 10 > 3 then (ndbm + 1 + nadd) % 10 - 3
      else (ndbm + 1 + nadd) % 10) = nadd + 1 := by
    have hok := hndbm.2
    simp only [powerOk, decide_eq_true_eq] at hok
    split
    · omega
    · split <;> omega
  have hpower : ndbm + 1 + nadd - (nadd + 1) = ndbm := by omega
  simp only [unpkType2, hadded, hpower, Nat.add_sub_cancel]
  cases unpackpfx (n2 / 128 + 32768 * nadd) call with
  | none => rfl
  | some heard => exact if_pos (.inl hndbm.2)

/-- **A callsign with a prefix or a suffix** comes back as it was sent, but for the forms that
are misheard. -/
theorem unpk_type2 (tables : HashTables) {callsign behind call : CString} {m nadd : Int}
    (hsent : PrefixSent callsign behind call m nadd) {ndbm : Nat} (hndbm : IsPower ndbm) :
    unpk tables (packData (packCall call) (128 * m + (ndbm + 1 + nadd) + 64)) =
      ⟨false, some (.type2 callsign ndbm), callsign, tables.store callsign none⟩ ↔
      ¬ Misheard callsign := by
  obtain ⟨hlt, hunpack⟩ := hsent.plain.unpackcall_packCall
  have hle := hndbm.1
  have hbit := hsent.bit
  have hfield : (128 * m + (ndbm + 1 + nadd) + 64) % 2 ^ 22 / 2 ^ 7 = m % 32768 := by omega
  rw [← hsent.heard]
  by_cases hgrid : m % 32768 < 32400
  · obtain ⟨grid, -, hunpk⟩ := unpk_packData tables (by rwa [Nat.mod_eq_of_lt hlt])
      (hfield.trans_lt hgrid)
    have hok := hndbm.2
    simp only [powerOk, decide_eq_true_eq] at hok
    have hntype : (128 * m + (ndbm + 1 + nadd) + 64) % 128 - 64 = ndbm + 1 + nadd := by omega
    have hnat : (ndbm + 1 + nadd : Int).toNat = ndbm + 1 + nadd.toNat := by omega
    have hnu : powerOk ((ndbm + 1 + nadd.toNat) % 10) = false := by
      simp only [powerOk, decide_eq_false_iff_not]
      omega
    have hn3 : ((128 * m + (ndbm + 1 + nadd) + 64) % 2 ^ 22).toNat / 128 + 32768 * nadd.toNat =
        sentPrefix m nadd := by
      rw [sentPrefix]
      omega
    rw [hunpk, hntype, if_pos (by omega), hnat, hnu, if_neg Bool.false_ne_true,
      hsent.plain.cstr_padded, unpkType2_sent _ _ _ hndbm (by omega), hn3]
    constructor
    · intro heq
      refine ⟨hgrid, ?_⟩
      split at heq
      · cases heq
      · next heard hheard =>
          have hcallsign := congrArg Unpacked.callsign heq
          rw [hheard]
          exact congrArg some hcallsign
    · rintro ⟨-, hheard⟩
      rw [hheard]
  · refine iff_of_false ?_ (fun hheard => hgrid hheard.1)
    intro heq
    have hnone : unpackgrid ((128 * m + (ndbm + 1 + nadd) + 64) % 2 ^ 22).toNat = none := by
      rw [← Option.not_isSome_iff_eq_none, unpackgrid_isSome]
      omega
    have hsilent := congrArg Unpacked.noprint heq
    rw [unpk, unpack50_packData] at hsilent
    simp only [unpkNumbers, Nat.mod_eq_of_lt hlt, hunpack, hnone] at hsilent
    cases hsilent

theorem type2_text {callsign : CString} {ndbm : Nat} (hcall : CallWord 10 callsign)
    (hndbm : IsPower ndbm) :
    (WsprMessage.type2 callsign ndbm).callLocPow = callsign ++ 32 :: cdbm ndbm := by
  have hlength := hcall.length
  have htext : callsign ++ bytes " " ++ cdbm ndbm = callsign ++ 32 :: cdbm ndbm := by
    simp [show bytes " " = [32] from rfl]
  rw [WsprMessage.callLocPow, htext]
  apply List.take_of_length_le
  simp only [List.length_append, List.length_cons, cdbm_length hndbm]
  omega

/-- A message of a callsign with a slash is always sent, and it reads back from the symbols
exactly when the callsign is not one of those that are misheard. -/
theorem type2_round_trip (tmp : List UInt8) (tables : HashTables) {callsign : CString}
    {ndbm : Nat} (hcall : CompoundCall callsign) (hndbm : IsPower ndbm) :
    ∃ data, getWsprChannelSymbols tmp tables (WsprMessage.type2 callsign ndbm).callLocPow =
        .sent data (channelSymbols tmp data) (unpk tables data).tables ∧
      ∀ receiver, unpk receiver data = ⟨false, some (.type2 callsign ndbm), callsign,
        receiver.store callsign none⟩ ↔ ¬ Misheard callsign := by
  obtain ⟨call, m, nadd, hsent⟩ := hcall.prefixSent (powerMemory ndbm)
  have hmessage : packMessage (WsprMessage.type2 callsign ndbm).callLocPow =
      .packed (packCall call) (128 * m + (ndbm + 1 + nadd) + 64) := by
    rw [type2_text hcall.shape.1 hndbm, packMessage_type2 hcall hndbm hsent]
  exact ⟨_, getWsprChannelSymbols_packed tmp tables hmessage,
    fun receiver => unpk_type2 receiver hsent hndbm⟩

theorem K1ABC_plain : PlainCall (bytes "K1ABC") :=
  ⟨bytes "K", 49, bytes "ABC", rfl, .inl rfl, by decide +kernel, by decide, by decide,
      by decide +kernel⟩

theorem type2_round_trip_NP4 :
    ∃ data, getWsprChannelSymbols (List.replicate 162 0) HashTables.empty
        (WsprMessage.type2 (bytes "NP4/K1ABC") 37).callLocPow =
          .sent data (channelSymbols (List.replicate 162 0) data)
            (unpk HashTables.empty data).tables ∧
      ∀ receiver, unpk receiver data = ⟨false, some (.type2 (bytes "NP4/K1ABC") 37),
        bytes "NP4/K1ABC", receiver.store (bytes "NP4/K1ABC") none⟩ ↔
          ¬ Misheard (bytes "NP4/K1ABC") :=
  type2_round_trip (List.replicate 162 0) HashTables.empty
    (show CompoundCall (bytes "NP4" ++ 47 :: bytes "K1ABC") from
      .withPrefix (by decide) (by decide) (by decide +kernel) K1ABC_plain (by decide))
    ⟨by decide, by decide⟩

/-- The prefixes of Puerto Rico are misheard, those of Bonaire are not. -/
example : Misheard (bytes "NP4/K1ABC") ∧ ¬ Misheard (bytes "PJ4/K1ABC") := by decide

/-- A locator of six characters -/
structure FullGrid (grid6 : CString) : Prop where
  split : ∃ c0 c1 c2 c3 c4 c5, grid6 = [c0, c1, c2, c3, c4, c5] ∧ isupper c0 = true ∧
    isupper c1 = true ∧ isdigit c2 = true ∧ isdigit c3 = true ∧ isupper c4 = true ∧
    isupper c5 = true

theorem type3_text {callsign grid6 : CString} {ndbm : Nat} (hcall : CallWord 10 callsign)
    (hgrid : grid6.length ≤ 6) (hndbm : IsPower ndbm) :
    (WsprMessage.type3 (bytes "<" ++ callsign ++ bytes ">") grid6 ndbm).callLocPow =
      [60] ++ callsign ++ 62 :: ([32] ++ grid6 ++ 32 :: cdbm ndbm) := by
  have hlength := hcall.length
  have htext : bytes "<" ++ callsign ++ bytes ">" ++ bytes " " ++ grid6 ++ bytes " " ++ cdbm ndbm =
      [60] ++ callsign ++ 62 :: ([32] ++ grid6 ++ 32 :: cdbm ndbm) := by
    simp [show bytes " " = [32] from rfl, show bytes "<" = [60] from rfl,
      show bytes ">" = [62] from rfl]
  rw [WsprMessage.callLocPow, htext]
  apply List.take_of_length_le
  simp only [List.length_append, List.length_cons, List.length_nil, cdbm_length hndbm]
  omega

/-- The words of a callsign in brackets -/
theorem packMessage_type3 {callsign grid6 : CString} {ndbm : Nat} (hcall : CallWord 10 callsign)
    (hne : grid6 ≠ []) (hgrid : ∀ c ∈ grid6, isCallChar c = true) (hndbm : IsPower ndbm) :
    packMessage ([60] ++ callsign ++ 62 :: ([32] ++ grid6 ++ 32 :: cdbm ndbm)) =
      .packed (packCall (rotatedGrid grid6)) (128 * callHash callsign + -(ndbm + 1) + 64) := by
  have hopen : strcspn ([60] ++ callsign ++ 62 :: ([32] ++ grid6 ++ 32 :: cdbm ndbm))
      (bytes "<") = 0 := strcspn_cons (by decide) _
  have hclose : strcspn ([60] ++ callsign ++ 62 :: ([32] ++ grid6 ++ 32 :: cdbm ndbm))
      (bytes ">") < ([60] ++ callsign ++ 62 :: ([32] ++ grid6 ++ 32 :: cdbm ndbm)).length :=
    strcspn_lt (List.mem_append_right _ List.mem_cons_self) (by decide)
  have hfirst : nextToken (bytes "<> ")
      ([60] ++ callsign ++ 62 :: ([32] ++ grid6 ++ 32 :: cdbm ndbm)) =
      some (callsign, [32] ++ grid6 ++ 32 :: cdbm ndbm) :=
    nextToken_word (by decide +kernel) hcall.nonempty (hcall.unmarked (by decide)) (by decide) _
  have hsecond : nextToken (bytes " ") ([32] ++ grid6 ++ 32 :: cdbm ndbm) =
      some (grid6, cdbm ndbm) :=
    nextToken_word (by decide +kernel) hne (fun c hc => callChar_unmarked (hgrid c hc) (by decide))
      (by decide) _
  have hpack : packType3 ([60] ++ callsign ++ 62 :: ([32] ++ grid6 ++ 32 :: cdbm ndbm)) =
      some (packCall (rotatedGrid grid6), 128 * (callHash callsign : Int) + -(ndbm + 1) + 64) := by
    simp only [packType3, hfirst, hsecond, cdbm_token, Option.bind_eq_bind, Option.bind_some,
      roundedPower_power hndbm]
  simp only [packMessage, hopen, hpack]
  rw [if_neg (by omega), if_pos ⟨trivial, hclose⟩]
  rfl

theorem callHash_lt {callsign : CString} (h : callsign ≠ []) : callHash callsign < 2 ^ 15 :=
  nhash_lt _ _ (List.length_pos_of_ne_nil h) _

/-- What is unpacked of the hash of a callsign and of the callsign that a locator became -/
theorem unpk_type3 (tables : HashTables) {callsign place : CString} (hcall : callsign ≠ [])
    (hplace : PlainCall place) {ndbm : Nat} (hndbm : IsPower ndbm) :
    unpk tables (packData (packCall place) (128 * callHash callsign + -(ndbm + 1) + 64)) =
      if callHash callsign < 32400 then
        unpkType3 tables (place ++ List.replicate (6 - place.length) 0)
          (128 * callHash callsign + (63 - ndbm)) (-1 - ndbm)
      else ⟨true, none, place, tables⟩ := by
  obtain ⟨hlt, hunpack⟩ := hplace.unpackcall_packCall
  have hle := hndbm.1
  have hhash := callHash_lt hcall
  have hfield : (128 * (callHash callsign : Int) + -(ndbm + 1) + 64) % 2 ^ 22 =
      (128 * callHash callsign + (63 - ndbm) : Nat) := by omega
  have hntype : (128 * (callHash callsign : Int) + -(ndbm + 1) + 64) % 128 - 64 = -1 - ndbm := by
    omega
  by_cases hgrid : callHash callsign < 32400
  · obtain ⟨grid, -, hunpk⟩ := unpk_packData tables (by rwa [Nat.mod_eq_of_lt hlt])
      (show (128 * (callHash callsign : Int) + -(ndbm + 1) + 64) % 2 ^ 22 / 2 ^ 7 < 32400 by omega)
    rw [hunpk, hntype, if_neg (by omega), if_pos (by omega), hfield, Int.toNat_natCast,
      if_pos hgrid]
  · have hnone : unpackgrid (128 * callHash callsign + (63 - ndbm)) = none := by
      rw [← Option.not_isSome_iff_eq_none, unpackgrid_isSome]
      omega
    rw [unpk, unpack50_packData, hfield, Int.toNat_natCast, if_neg hgrid]
    simp only [unpkNumbers, Nat.mod_eq_of_lt hlt, hunpack, hnone, hplace.cstr_padded]

theorem rotated_subset (c0 c1 c2 c3 c4 c5 : UInt8) :
    [c0, c1, c2, c3, c4, c5] ⊆ [c1, c2, c3, c4, c5, c0] :=
  (List.perm_append_comm : ([c0] ++ [c1, c2, c3, c4, c5]).Perm _).subset

/-- A locator of six characters comes back from the places of a callsign. -/
theorem unpkType3_full (tables : HashTables) {c0 c1 c2 c3 c4 c5 : UInt8} (h0 : isupper c0 = true)
    (h1 : isupper c1 = true) (h2 : isdigit c2 = true) (h3 : isdigit c3 = true)
    (hchars : ∀ c ∈ [c1, c2, c3, c4, c5, c0], c ≠ 0) {ndbm : Nat} (hndbm : IsPower ndbm)
    (ihash : Nat) :
    unpkType3 tables [c1, c2, c3, c4, c5, c0] (128 * ihash + (63 - ndbm)) (-1 - ndbm) =
      ⟨false, some (.type3 (tables.bracketed ihash) [c0, c1, c2, c3, c4, c5] ndbm),
        tables.bracketed ihash, tables⟩ := by
  have hle := hndbm.1
  have hpower : (-(-1 - (ndbm : Int) + 1)).toNat = ndbm := by omega
  have hslot : ((((128 * ihash + (63 - ndbm) : Nat) : Int) - (-1 - ndbm) - 64) / 128).toNat =
      ihash := by omega
  have hlast : ¬ (-1 - (ndbm : Int) = -64) := by omega
  have hcall : cstr [c1, c2, c3, c4, c5, c0] = [c1, c2, c3, c4, c5, c0] := cstr_solid hchars
  have hgrid : cstr [c0, c1, c2, c3, c4, c5] = [c0, c1, c2, c3, c4, c5] := by
    apply cstr_solid
    exact fun c hc => hchars c (rotated_subset c0 c1 c2 c3 c4 c5 hc)
  have hletter0 : isalpha c0 = true := by rw [isalpha, h0, Bool.true_or]
  have hletter1 : isalpha c1 = true := by rw [isalpha, h1, Bool.true_or]
  simp only [unpkType3, hpower, hslot, hcall, hlast, hndbm.2, List.getD_cons_zero,
    List.getD_cons_succ, List.take_succ_cons, List.take_zero, hletter0, hletter1, h2, h3, hgrid]
  rfl

/-- **A callsign in brackets** is sent as its hash. Any receiver reads the message back, with
the callsign that its own tables have for the hash, exactly when the hash is below 32400. With
a hash above that, which stands where a locator would, no receiver prints the message. -/
theorem type3_round_trip (tmp : List UInt8) (tables : HashTables) {callsign grid6 : CString}
    {ndbm : Nat} (hcall : CallWord 10 callsign) (hgrid : FullGrid grid6) (hndbm : IsPower ndbm) :
    ∃ data, getWsprChannelSymbols tmp tables
        (WsprMessage.type3 (bytes "<" ++ callsign ++ bytes ">") grid6 ndbm).callLocPow =
        .sent data (channelSymbols tmp data) (unpk tables data).tables ∧
      ∀ receiver, (unpk receiver data =
          ⟨false, some (.type3 (receiver.bracketed (callHash callsign)) grid6 ndbm),
            receiver.bracketed (callHash callsign), receiver⟩ ↔ callHash callsign < 32400) ∧
        (32400 ≤ callHash callsign → (unpk receiver data).noprint = true) := by
  obtain ⟨c0, c1, c2, c3, c4, c5, rfl, h0, h1, h2, h3, h4, h5⟩ := hgrid.split
  have hupper := fun c h => (callsignCode_upper c h).2.1
  have hdigit := fun c h => (callsignCode_digit c h).2
  have hchars : ∀ c ∈ [c1, c2, c3, c4, c5, c0], isCallChar c = true := by
    simp only [List.forall_mem_cons]
    exact ⟨hupper c1 h1, hdigit c2 h2, hdigit c3 h3, hupper c4 h4, hupper c5 h5, hupper c0 h0,
      fun _ h => absurd h List.not_mem_nil⟩
  have hsolid : ∀ c ∈ [c1, c2, c3, c4, c5, c0], c ≠ 0 := fun c hc =>
    (callChar_solid c (hchars c hc)).2
  have hplace : PlainCall [c1, c2, c3, c4, c5, c0] := by
    refine ⟨[c1, c2], c3, [c4, c5, c0], rfl, .inr rfl, ?_, h3, le_rfl, ?_⟩
    · simp [hupper c1 h1, hdigit c2 h2]
    · simp [h4, h5, h0]
  have hrotated : rotatedGrid [c0, c1, c2, c3, c4, c5] = [c1, c2, c3, c4, c5, c0] :=
    cstr_append hsolid [0].tail
  have hmessage : packMessage (WsprMessage.type3 (bytes "<" ++ callsign ++ bytes ">")
      [c0, c1, c2, c3, c4, c5] ndbm).callLocPow =
      .packed (packCall [c1, c2, c3, c4, c5, c0]) (128 * callHash callsign + -(ndbm + 1) + 64) := by
    rw [type3_text hcall (by simp) hndbm, packMessage_type3 hcall (List.cons_ne_nil _ _)
      (fun c hc => hchars c (rotated_subset c0 c1 c2 c3 c4 c5 hc)) hndbm, hrotated]
  refine ⟨_, getWsprChannelSymbols_packed tmp tables hmessage, ?_⟩
  intro receiver
  rw [unpk_type3 receiver hcall.nonempty hplace hndbm]
  split
  · next hlow =>
      exact ⟨iff_of_true (unpkType3_full receiver h0 h1 h2 h3 hsolid hndbm _) hlow,
        fun hhigh => absurd hlow hhigh.not_gt⟩
  · next hhigh => exact ⟨iff_of_false (fun heq => by cases heq) hhigh, fun _ => rfl⟩

/-- The message of `<PJ4/K1ABC>` with a locator of six characters. -/
theorem type3_round_trip_K1ABC :
    ∃ data, getWsprChannelSymbols (List.replicate 162 0) HashTables.empty
        (WsprMessage.type3 (bytes "<" ++ bytes "PJ4/K1ABC" ++ bytes ">") (bytes "FK52UD")
          37).callLocPow =
        .sent data (channelSymbols (List.replicate 162 0) data)
          (unpk HashTables.empty data).tables ∧
      ∀ receiver, (unpk receiver data =
          ⟨false, some (.type3 (receiver.bracketed (callHash (bytes "PJ4/K1ABC")))
            (bytes "FK52UD") 37), receiver.bracketed (callHash (bytes "PJ4/K1ABC")), receiver⟩ ↔
          callHash (bytes "PJ4/K1ABC") < 32400) ∧
        (32400 ≤ callHash (bytes "PJ4/K1ABC") → (unpk receiver data).noprint = true) :=
  type3_round_trip _ _ ⟨by decide, by decide, by decide +kernel⟩
    ⟨70, 75, 53, 50, 85, 68, rfl, by decide, by decide, by decide, by decide, by decide,
      by decide⟩ ⟨by decide, by decide⟩

/-- "if 4-digit locator is specified, 2 spaces are added to the end": the first character of
the locator stands behind the terminator and is lost, so no receiver prints the message. -/
theorem type3_short_grid (tmp : List UInt8) (tables : HashTables) {callsign grid : CString}
    {ndbm : Nat} (hcall : CallWord 10 callsign) (hgrid : PlainGrid grid) (hndbm : IsPower ndbm) :
    ∃ data, getWsprChannelSymbols tmp tables
        (WsprMessage.type3 (bytes "<" ++ callsign ++ bytes ">") grid ndbm).callLocPow =
        .sent data (channelSymbols tmp data) (unpk tables data).tables ∧
      ∀ receiver, (unpk receiver data).noprint = true := by
  have hgridChars := hgrid.callChars.2
  obtain ⟨c0, c1, c2, c3, rfl, h0, h1, h2, h3⟩ := hgrid.split
  have hchars : ∀ c ∈ [c1, c2, c3], isCallChar c = true := fun c hc =>
    hgridChars c (List.mem_cons_of_mem _ hc)
  have hsolid : ∀ c ∈ [c1, c2, c3], c ≠ 0 := fun c hc => (callChar_solid c (hchars c hc)).2
  have hplace : PlainCall [c1, c2, c3] := by
    refine ⟨[c1, c2], c3, [], rfl, .inr rfl, ?_, h3, by decide, ?_⟩
    · exact fun c hc => hchars c (List.mem_append_left [c3] hc)
    · exact fun c hc => absurd hc List.not_mem_nil
  have hrotated : rotatedGrid [c0, c1, c2, c3] = [c1, c2, c3] := cstr_append hsolid [0, c0, 0]
  have hmessage : packMessage (WsprMessage.type3 (bytes "<" ++ callsign ++ bytes ">")
      [c0, c1, c2, c3] ndbm).callLocPow =
      .packed (packCall [c1, c2, c3]) (128 * callHash callsign + -(ndbm + 1) + 64) := by
    rw [type3_text hcall (by simp) hndbm,
      packMessage_type3 hcall (List.cons_ne_nil _ _) hgridChars hndbm, hrotated]
  refine ⟨_, getWsprChannelSymbols_packed tmp tables hmessage, ?_⟩
  intro receiver
  rw [unpk_type3 receiver hcall.nonempty hplace hndbm]
  split
  · have hlost : isalpha (([c1, c2, c3] ++ List.replicate (6 - [c1, c2, c3].length) 0).getD 5 0) =
        false := rfl
    simp only [unpkType3, List.getD_cons_zero, hlost, Bool.not_false, Bool.or_true, Bool.true_or]
  · rfl

theorem type3_short_grid_JO33 :
    ∃ data, getWsprChannelSymbols (List.replicate 162 0) HashTables.empty
        (WsprMessage.type3 (bytes "<" ++ bytes "PA0SKT/2" ++ bytes ">") (bytes "JO33")
          40).callLocPow =
        .sent data (channelSymbols (List.replicate 162 0) data)
          (unpk HashTables.empty data).tables ∧
      ∀ receiver, (unpk receiver data).noprint = true :=
  type3_short_grid _ _ ⟨by decide, by decide, by decide +kernel⟩
    ⟨74, 79, 51, 51, rfl, by decide, by decide, by decide, by decide⟩ ⟨by decide, by decide⟩

end AirspyhfWsprd.Wspr
