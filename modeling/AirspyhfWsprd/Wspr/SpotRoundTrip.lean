import AirspyhfWsprd.Wspr.SpotFile

/-!
The bridge reads back what the core printed as long as every message has a
callsign, a locator and a power. A type 2 message has no locator: its line has one
word less than the scan asks for, and one such line makes the whole file fail.
-/

namespace AirspyhfWsprd.Wspr

open Library

/-- The call, the locator, the power, the drift, the cycles and the jitter. -/
abbrev SpotFields := CString × CString × CString × FloatValue × UInt32 × Int32

def WsprMessage.call : WsprMessage → CString
  | .type1 callsign _ _ | .type2 callsign _ | .type3 callsign _ _ => callsign

def WsprMessage.loc : WsprMessage → CString
  | .type1 _ grid _ | .type3 _ grid _ => grid
  | .type2 _ _ => []

def WsprMessage.pwr : WsprMessage → CString
  | .type1 _ _ ndbm | .type2 _ ndbm | .type3 _ _ ndbm => decimal ndbm

/-- What a line says. -/
def Decode.fields (d : Decode) : SpotFields :=
  (d.message.call, d.message.loc, d.message.pwr, FloatValue.ofInt binary32 d.drift.toInt, d.cycles,
    d.jitter)

/-- What a result carries. -/
def DecoderResults.fields (r : DecoderResults) : SpotFields :=
  (r.call, r.loc, r.pwr, r.drift, r.cycles, r.jitter)

/-- A message with a locator. -/
def WsprMessage.hasLocator : WsprMessage → Bool
  | .type2 _ _ => false
  | _ => true

/-- A message with a locator is three words, and all of them fit. -/
theorem callLocPow_words {m : WsprMessage} (hm : m.WellFormed) (hlocator : m.hasLocator = true) :
    IsWord 12 m.call ∧ IsWord 6 m.loc ∧ IsWord 2 m.pwr ∧
      m.callLocPow = m.call ++ bytes " " ++ m.loc ++ bytes " " ++ padLeft 2 m.pwr := by
  have hwords {callsign grid : CString} {ndbm : Nat} (hcallsign : IsWord 12 callsign)
      (hgrid : IsWord 6 grid) (hndbm : ndbm < 100) :
      IsWord 12 callsign ∧ IsWord 6 grid ∧ IsWord 2 (decimal ndbm) ∧
        copyText 23 (callsign ++ bytes " " ++ grid ++ bytes " " ++ cdbm ndbm) =
          callsign ++ bytes " " ++ grid ++ bytes " " ++ padLeft 2 (decimal ndbm) := by
    have hpower : IsWord 2 (decimal ndbm) := decimal_word (by decide) hndbm
    refine ⟨hcallsign, hgrid, hpower, List.take_of_length_le ?_⟩
    have hcdbm := padLeft_length hpower.length
    have hblank : (bytes " ").length = 1 := rfl
    have := hcallsign.length
    have := hgrid.length
    simp only [List.length_append, cdbm, hcdbm, hblank]
    omega
  cases m with
  | type1 callsign grid ndbm =>
      exact hwords (hm.1.mono (by decide)) (hm.2.1.mono (by decide)) hm.2.2
  | type2 callsign ndbm => cases hlocator
  | type3 callsign grid6 ndbm => exact hwords hm.1 hm.2.1 hm.2.2

/-- A gap between two fields. -/
structure IsGap (gap : CString) : Prop where
  nonempty : gap ≠ []
  blank : ∀ c ∈ gap, isspace c = true

theorem isGap_blank : IsGap (bytes " ") := ⟨by decide, List.all_eq_true.mp rfl⟩

theorem isGap_blanks : IsGap (bytes "  ") := ⟨by decide, List.all_eq_true.mp rfl⟩

theorem isGap_padding (count : Nat) :
    IsGap (List.replicate count ' '.toUInt8 ++ bytes " ") := by
  refine ⟨List.append_ne_nil_of_right_ne_nil _ (by decide), fun c hc => ?_⟩
  rcases List.mem_append.mp hc with hc | hc
  · rw [List.eq_of_mem_replicate hc]
    decide
  · exact isGap_blank.blank c hc

/-- One more field in front of the rest of a line. -/
theorem Reads.field {α : Type*} {scan : CString → Option (α × CString)} {text gap : CString}
    {value : α} (h : Reads scan text value) (hskips : SkipsSpace scan) (hgap : IsGap gap)
    {rest : CString} (hrest : EndsWord rest) :
    ∃ line, line = gap ++ (text ++ rest) ∧ EndsWord line ∧ scan line = some (value, rest) := by
  refine ⟨_, rfl, ?_, ?_⟩
  · obtain ⟨c, tail, rfl⟩ := List.exists_cons_of_ne_nil hgap.nonempty
    exact endsWord_cons (hgap.blank c List.mem_cons_self)
  · rw [hskips.gap hgap.blank]
    exact h rest hrest

theorem bind_scanned {α β : Type} {scanned : Option (α × CString)} {value : α} {rest : CString}
    {next : α × CString → Option β} {result : β} (h : scanned = some (value, rest))
    (hnext : next (value, rest) = some result) : scanned >>= next = some result := by
  rw [h]
  exact hnext

/-- A printed line with a locator is scanned field by field, each conversion taking the word
that its own conversion of `printf` has put there. -/
theorem scanResult_spotLine (d : Decode) (hlocator : d.message.hasLocator = true) :
    ∃ result, scanResult (spotLine d) = some result ∧ result.fields = d.fields := by
  obtain ⟨hcall, hloc, hpwr, hmessage⟩ := callLocPow_words d.message_wellFormed hlocator
  obtain ⟨snr, hsnr⟩ := scanFloat_reads binary32 0 d.snr
  obtain ⟨dt, hdt⟩ := scanFloat_reads binary32 1 d.dt
  obtain ⟨freq, hfreq⟩ := scanFloat_reads binary64 6 d.freq
  obtain ⟨count, hpad⟩ : ∃ count, padRight 22 d.message.callLocPow =
      d.message.callLocPow ++ List.replicate count ' '.toUInt8 := ⟨_, rfl⟩
  have hend : EndsWord (bytes "\n") := endsWord_cons (by decide)
  -- The line from its last field to its first.
  obtain ⟨jitterOn, hjitterOn, hend, hjitter⟩ := Reads.field
    ((scanInt_reads d.jitter).padLeft scanInt_skips 4) scanInt_skips isGap_blank hend
  obtain ⟨cyclesOn, hcyclesOn, hend, hcycles⟩ := Reads.field
    ((scanUnsigned_reads d.cycles).padLeft scanUnsigned_skips 5) scanUnsigned_skips isGap_blank hend
  obtain ⟨driftOn, hdriftOn, hend, hdrift⟩ := Reads.field
    ((scanInt_reads d.drift).padLeft scanInt_skips 2) scanInt_skips
    (isGap_padding count) hend
  obtain ⟨pwrOn, hpwrOn, hend, hpwr'⟩ := Reads.field
    (hpwr.reads.padLeft (scanString_skips 2) 2) (scanString_skips 2) isGap_blank hend
  obtain ⟨locOn, hlocOn, hend, hloc'⟩ :=
    Reads.field hloc.reads (scanString_skips 6) isGap_blank hend
  obtain ⟨callOn, hcallOn, hend, hcall'⟩ :=
    Reads.field hcall.reads (scanString_skips 12) isGap_blanks hend
  obtain ⟨freqOn, hfreqOn, hend, hfreq'⟩ := Reads.field
    (hfreq.padLeft (scanFloat_skips _) 10) (scanFloat_skips _) isGap_blank hend
  obtain ⟨dtOn, hdtOn, hend, hdt'⟩ := Reads.field
    (hdt.padLeft (scanFloat_skips _) 4) (scanFloat_skips _) isGap_blank hend
  obtain ⟨snrOn, hsnrOn, hend, hsnr'⟩ := Reads.field
    (hsnr.padLeft (scanFloat_skips _) 3) (scanFloat_skips _) isGap_blank hend
  obtain ⟨syncOn, hsyncOn, hend, hsync⟩ := Reads.field
    ((scanInt_reads d.syncTenths).padLeft scanInt_skips 3) scanInt_skips isGap_blank hend
  obtain ⟨timeOn, htimeOn, hend, htime⟩ := Reads.field
    (d.time_word.reads.padLeft (scanString_skips 4) 4) (scanString_skips 4) isGap_blank hend
  have hline : spotLine d = padLeft 6 d.date ++ timeOn := by
    rw [htimeOn, hsyncOn, hsnrOn, hdtOn, hfreqOn, hcallOn, hlocOn, hpwrOn, hdriftOn, hcyclesOn,
      hjitterOn]
    -- The equation Lean derives for this definition is slow to derive.
    delta spotLine
    rw [hpad, hmessage]
    simp only [List.append_assoc]
  have hdate : scanString 6 (spotLine d) = some (d.date, timeOn) := by
    rw [hline]
    exact d.date_word.reads.padLeft (scanString_skips 6) 6 _ hend
  refine ⟨_, bind_scanned hdate (bind_scanned htime (bind_scanned hsync (bind_scanned hsnr'
    (bind_scanned hdt' (bind_scanned hfreq' (bind_scanned hcall' (bind_scanned hloc'
      (bind_scanned hpwr' (bind_scanned hdrift (bind_scanned hcycles
        (bind_scanned hjitter rfl))))))))))), ?_⟩
  rw [DecoderResults.fields, Decode.fields, copyText_word hcall, copyText_word hloc,
    copyText_word hpwr]

/-- A piece of a line that is not longer than this. -/
structure Inline (limit : Nat) (text : CString) : Prop where
  length : text.length ≤ limit
  solid : '\n'.toUInt8 ∉ text

theorem Inline.append {limit limit' : Nat} {text text' : CString} (h : Inline limit text)
    (h' : Inline limit' text') : Inline (limit + limit') (text ++ text') := by
  refine ⟨?_, fun hmem => (List.mem_append.mp hmem).elim h.solid h'.solid⟩
  rw [List.length_append]
  exact Nat.add_le_add h.length h'.length

theorem IsWord.inline {limit : Nat} {text : CString} (h : IsWord limit text) : Inline limit text :=
  ⟨h.length, fun hmem => absurd (h.solid _ hmem) (by decide)⟩

theorem inline_padLeft {limit : Nat} {text : CString} (h : IsWord limit text) (width : Nat)
    (hwidth : width ≤ limit) : Inline limit (padLeft width text) := by
  constructor
  · rw [padLeft, List.length_append, List.length_replicate]
    have := h.length
    omega
  · intro hmem
    rcases List.mem_append.mp hmem with hmem | hmem
    · exact absurd (List.eq_of_mem_replicate hmem) (by decide)
    · exact (IsWord.inline h).solid hmem

theorem inline_padRight {limit width : Nat} {text : CString} (h : Inline limit text)
    (hwidth : width ≤ limit) : Inline limit (padRight width text) := by
  constructor
  · rw [padRight, List.length_append, List.length_replicate]
    have := h.length
    omega
  · intro hmem
    rcases List.mem_append.mp hmem with hmem | hmem
    · exact h.solid hmem
    · exact absurd (List.eq_of_mem_replicate hmem) (by decide)

theorem inline_blank : Inline 1 (bytes " ") := ⟨by decide, by decide⟩

/-- A `float` has at most 39 digits before the point. -/
theorem below_of_float {value : FloatValue} (h : value.InFormat binary32) : value.Below 39 := by
  cases value with
  | finite negative mantissa exponent =>
      obtain ⟨hmantissa, -, hexponent⟩ := h
      have hpow : 2 ^ exponent.toNat ≤ 2 ^ 104 :=
        Nat.pow_le_pow_right (by decide) (Int.toNat_le.mpr hexponent)
      have hone : 1 ≤ 2 ^ (-exponent).toNat := Nat.one_le_two_pow
      calc mantissa * 2 ^ exponent.toNat
          ≤ 2 ^ 24 * 2 ^ 104 := Nat.mul_le_mul hmantissa hpow
        _ < 10 ^ 39 * 1 := by decide
        _ ≤ 10 ^ 39 * 2 ^ (-exponent).toNat := Nat.mul_le_mul_left _ hone
  | infinite negative => trivial
  | nan negative => trivial

/-- A printed line fits into the buffer of `fgets` with its newline, so it is read as one line. -/
theorem spotLine_inline (d : Decode) (hlocator : d.message.hasLocator = true) :
    ∃ body, spotLine d = body ++ bytes "\n" ∧ Inline 254 body := by
  obtain ⟨hcall, hloc, hpwr, hmessage⟩ := callLocPow_words d.message_wellFormed hlocator
  have hsnr := printFixed_word (by decide) (below_of_float d.snr_float) 0
  have hdt := printFixed_word (by decide) (below_of_float d.dt_float) 1
  have hfreq := printFixed_word (by decide) d.freq_below 6
  have hcycles := decimal_word (n := d.cycles.toNat) (k := 10) (by decide)
    (Nat.lt_trans d.cycles.toNat_lt (by decide))
  have hgap : Inline 2 (bytes "  ") := ⟨by decide, by decide⟩
  have htext : Inline 22 d.message.callLocPow := by
    rw [hmessage]
    exact ((((IsWord.inline hcall).append inline_blank).append (IsWord.inline hloc)).append
      inline_blank).append (inline_padLeft hpwr 2 (Nat.le_refl 2))
  have hbody := (inline_padLeft d.date_word 6 (Nat.le_refl 6)).append (inline_blank.append
    ((inline_padLeft d.time_word 4 (Nat.le_refl 4)).append (inline_blank.append
      ((inline_padLeft (printInt_word d.syncTenths) 3 (by decide)).append
        (inline_blank.append ((inline_padLeft hsnr 3 (by decide)).append
          (inline_blank.append ((inline_padLeft hdt 4 (by decide)).append
            (inline_blank.append ((inline_padLeft hfreq 10 (by decide)).append
              (hgap.append ((inline_padRight htext (Nat.le_refl 22)).append (inline_blank.append
                ((inline_padLeft (printInt_word d.drift) 2 (by decide)).append
                  (inline_blank.append ((inline_padLeft hcycles 5 (by decide)).append
                    (inline_blank.append
                      (inline_padLeft (printInt_word d.jitter) 4 (by decide)))))))))))))))))))
  refine ⟨_, ?_, Nat.le_trans hbody.length (by decide), hbody.solid⟩
  delta spotLine
  simp only [List.append_assoc]

theorem fgetsLoop_line {room : Nat} {body : CString} (h : Inline room body) (rest : CString) :
    fgetsLoop (room + 1) (body ++ '\n'.toUInt8 :: rest) = (body ++ bytes "\n", rest) := by
  obtain ⟨hlength, hsolid⟩ := h
  induction body generalizing room with
  | nil => exact if_pos rfl
  | cons c body ih =>
      obtain ⟨room, rfl⟩ := Nat.exists_eq_add_of_le' (Nat.lt_of_lt_of_le (Nat.succ_pos _) hlength)
      rw [List.mem_cons, not_or] at hsolid
      rw [List.cons_append, fgetsLoop, if_neg fun heq => hsolid.1 heq.symm,
        ih (Nat.le_of_succ_le_succ hlength) hsolid.2]
      rfl

theorem fgets_spotLine {d : Decode} (hlocator : d.message.hasLocator = true) (rest : CString) :
    fgets 256 (spotLine d ++ rest) = some (spotLine d, rest) := by
  obtain ⟨body, hline, hbody⟩ := spotLine_inline d hlocator
  have hne : spotLine d ++ rest ≠ [] := by
    rw [hline, List.append_assoc]
    exact List.append_ne_nil_of_right_ne_nil _ (List.cons_ne_nil _ _)
  rw [fgets, if_neg hne, hline, List.append_assoc]
  exact congrArg some (fgetsLoop_line hbody rest)

/-- The loop over the lines reads back all decodes when each of them has a locator and there is
room for them. -/
theorem parseResultsLoop_spotsFile {decodes : List Decode}
    (hlocator : ∀ d ∈ decodes, d.message.hasLocator = true) {room : Nat}
    (hroom : decodes.length ≤ room) :
    ∃ results, parseResultsLoop room (spotsFile decodes) = some results ∧
      results.map (·.fields) = decodes.map (·.fields) := by
  induction decodes generalizing room with
  | nil => cases room <;> exact ⟨[], rfl, rfl⟩
  | cons d decodes ih =>
      obtain ⟨room, rfl⟩ := Nat.exists_eq_add_of_le' (Nat.lt_of_lt_of_le (Nat.succ_pos _) hroom)
      obtain ⟨hfirst, hrest⟩ := List.forall_mem_cons.mp hlocator
      obtain ⟨results, hresults, hfields⟩ := ih hrest (Nat.le_of_succ_le_succ hroom)
      obtain ⟨result, hresult, hsame⟩ := scanResult_spotLine d hfirst
      refine ⟨result :: results, ?_, by rw [List.map_cons, List.map_cons, hfields, hsame]⟩
      rw [spotsFile, List.flatMap_cons, parseResultsLoop, fgets_spotLine hfirst]
      simp only [hresult, Option.bind_eq_bind, Option.bind_some]
      rw [← spotsFile, hresults, Option.bind_some]

/-- Whatever a result was made of, its locator is a word of the line. -/
theorem scanResult_loc {line : CString} {result : DecoderResults}
    (h : scanResult line = some result) : result.loc ≠ [] := by
  -- The eighth of the twelve conversions.
  iterate 7 obtain ⟨_, -, h⟩ := Option.bind_eq_some_iff.mp h
  obtain ⟨⟨grid, rest⟩, hgrid, h⟩ := Option.bind_eq_some_iff.mp h
  iterate 4 obtain ⟨_, -, h⟩ := Option.bind_eq_some_iff.mp h
  obtain rfl := Option.some.inj h
  have hne : grid ≠ [] := by
    rw [scanString, scanClass] at hgrid
    split at hgrid
    · cases hgrid
    · rename_i hitem
      exact fun hnil => hitem ((Prod.ext_iff.mp (Option.some.inj hgrid)).1.trans hnil)
  obtain ⟨c, tail, rfl⟩ := List.exists_cons_of_ne_nil hne
  exact List.cons_ne_nil _ _

/-- What holds of every line that is scanned holds of every result. -/
theorem parseResultsLoop_forall {property : DecoderResults → Prop}
    (hscan : ∀ line result, scanResult line = some result → property result) {room : Nat}
    {input : CString} {results : List DecoderResults}
    (h : parseResultsLoop room input = some results) : ∀ result ∈ results, property result := by
  induction room generalizing input results with
  | zero =>
      obtain rfl := Option.some.inj h
      exact List.forall_mem_nil _
  | succ room ih =>
      rw [parseResultsLoop] at h
      split at h
      · obtain rfl := Option.some.inj h
        exact List.forall_mem_nil _
      · obtain ⟨result, hresult, h⟩ := Option.bind_eq_some_iff.mp h
        obtain ⟨others, hothers, h⟩ := Option.bind_eq_some_iff.mp h
        obtain rfl := Option.some.inj h
        exact List.forall_mem_cons.mpr ⟨hscan _ _ hresult, ih hothers⟩

theorem parseResults_loop {resultCapacity : UInt32} {input : CString}
    {results : List DecoderResults}
    (h : parseResults resultCapacity (some input) = (0, results)) :
    parseResultsLoop resultCapacity.toNat input = some results := by
  rw [parseResults] at h
  split at h
  · cases h
  · rename_i hloop
    rw [hloop]
    exact congrArg some (Prod.ext_iff.mp h).2

/-- The file gives one result for each line, with the fields of the line. -/
def ReadsBack (resultCapacity : UInt32) (decodes : List Decode) : Prop :=
  ∃ results, parseResults resultCapacity (some (spotsFile decodes)) = (0, results) ∧
    results.map (·.fields) = decodes.map (·.fields)

/-- The file is read back exactly when every decode has a locator: one line with fewer words
makes the parser give up on the whole file. -/
theorem parse_results_reads_back_iff {resultCapacity : UInt32} {decodes : List Decode}
    (hcapacity : decodes.length ≤ resultCapacity.toNat) :
    ReadsBack resultCapacity decodes ↔ ∀ d ∈ decodes, d.message.hasLocator = true := by
  constructor
  · rintro ⟨results, hparse, hfields⟩ d hd
    have hmem : d.fields ∈ results.map (·.fields) := by
      rw [hfields]
      exact List.mem_map_of_mem hd
    obtain ⟨result, hresult, hsame⟩ := List.mem_map.mp hmem
    have hloc : result.loc = d.message.loc := congrArg (fun fields => fields.2.1) hsame
    have hne := parseResultsLoop_forall (fun _ _ => scanResult_loc) (parseResults_loop hparse)
      result hresult
    rw [hloc] at hne
    cases hmessage : d.message with
    | type1 callsign grid ndbm => rfl
    | type2 callsign ndbm =>
        rw [hmessage] at hne
        exact absurd rfl hne
    | type3 callsign grid6 ndbm => rfl
  · intro hlocator
    obtain ⟨results, hresults, hfields⟩ := parseResultsLoop_spotsFile hlocator hcapacity
    exact ⟨results, by simp only [parseResults, hresults], hfields⟩

/-- A spot at 14.125 MHz with this message. -/
def exampleDecode (message : WsprMessage) (h : message.WellFormed) : Decode where
  date := bytes "150426"
  time := bytes "0918"
  syncTenths := 5
  snr := .finite true 20 0
  dt := .finite false 1 (-1)
  freq := .finite false 113 (-3)
  message := message
  drift := 0
  cycles := 1
  jitter := 0
  date_word := by decide
  time_word := by decide
  snr_float := ⟨by decide, by decide, by decide⟩
  dt_float := ⟨by decide, by decide, by decide⟩
  freq_below := by
    unfold FloatValue.Below
    decide
  message_wellFormed := h

/-- `ND6P DM04 30` -/
def standardDecode : Decode :=
  exampleDecode (.type1 (bytes "ND6P") (bytes "DM04") 30)
    ⟨by decide, by decide, by decide⟩

/-- `<W5BIT> EL09aa 17` -/
def hashedDecode : Decode :=
  exampleDecode (.type3 (bytes "<W5BIT>") (bytes "EL09aa") 17)
    ⟨by decide, by decide, by decide⟩

/-- `PJ4/K1ABC 37` -/
def prefixedDecode : Decode :=
  exampleDecode (.type2 (bytes "PJ4/K1ABC") 37) ⟨by decide, by decide⟩

/-- Two decodes with a locator each, one of them of a callsign in brackets. -/
theorem twoDecodes_read_back : ReadsBack 50 [standardDecode, hashedDecode] :=
  (parse_results_reads_back_iff (by decide)).mpr (by decide)

/-- The message of a callsign with a prefix has no locator. Its line has a word less than the
parser scans for, and with it the line of the other decode is lost. -/
theorem prefixed_call_loses_file : ¬ ∀ decodes : List Decode, decodes.length ≤ 50 →
    ReadsBack 50 decodes := by
  intro hall
  obtain ⟨results, hparse, -⟩ := hall [standardDecode, prefixedDecode] (by decide)
  have hfails : (parseResults 50 (some (spotsFile [standardDecode, prefixedDecode]))).1 = -1 := by
    decide +kernel
  rw [hparse] at hfails
  have hstatus : (0 : Int) = -1 := hfails
  cases hstatus

end AirspyhfWsprd.Wspr
