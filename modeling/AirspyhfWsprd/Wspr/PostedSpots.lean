import AirspyhfWsprd.Jt9.DecodeLine
import AirspyhfWsprd.Wspr.Reporter
import AirspyhfWsprd.Wspr.SpotRoundTrip

/-!
The reports that the receiver makes of a decoded frame. `postSpots` copies the callsign of
each result as the core has printed it, also one in angle brackets, which the core prints
for a callsign that it knows by its hash.
-/

namespace AirspyhfWsprd.Wspr

open Library

/-- The fields of `struct decoder_options` that a report takes. -/
structure DecoderOptions where
  freq : UInt32
  rcall : CString
  rloc : CString
  date : CString
  uttime : CString

/-- The report that `postSpots` fills from a result and the decoder's options. Each text is cut
to the size of its array. -/
def spotReport (options : DecoderOptions) (result : DecoderResults) : WsprReport where
  receiverCall := copyText 13 options.rcall
  receiverGrid := copyText 7 options.rloc
  date := copyText 7 options.date
  time := copyText 5 options.uttime
  transmitterCall := copyText 13 result.call
  transmitterGrid := copyText 7 result.loc
  power := copyText 3 result.pwr
  receiverFrequencyMhz :=
    (FloatValue.ofInt binary64 options.freq.toNat).divNat binary64 1000000
  transmitterFrequencyMhz := result.freq
  snr := result.snr
  dt := result.dt
  drift := result.drift

/-- The loop of `postSpots` from an index on: the reporter behind it, and the reports that
`wspr_reporter_enqueue` is called with. `synchronized` is what the clock answers for each
spot. -/
def postSpotsLoop (noreport : Bool) (synchronized : Nat → Bool) (options : DecoderOptions) :
    (index : Nat) → List DecoderResults → WsprReporter → WsprReporter × List WsprReport
  | _, [], reporter => (reporter, [])
  | index, result :: results, reporter =>
      if noreport then postSpotsLoop noreport synchronized options (index + 1) results reporter
      else if !synchronized index then
        postSpotsLoop noreport synchronized options (index + 1) results reporter
      else
        let report := spotReport options result
        let (_, reporter) := wsprReporterEnqueue reporter report
        let (reporter, reports) :=
          postSpotsLoop noreport synchronized options (index + 1) results reporter
        (reporter, report :: reports)

def postSpots (noreport : Bool) (synchronized : Nat → Bool) (options : DecoderOptions)
    (results : List DecoderResults) (reporter : WsprReporter) : WsprReporter × List WsprReport :=
  postSpotsLoop noreport synchronized options 0 results reporter

/-- The callsign that `unpk_` makes of an entry of the hash table. -/
def hashedCallsign (entry : CString) : CString :=
  if entry = [] then bytes "<...>" else '<'.toUInt8 :: (entry ++ ['>'.toUInt8])

/-- The spots that are reported: none without reporting, and none while the clock is
unsynchronized. -/
def reportedSpots (noreport : Bool) (synchronized : Nat → Bool) (results : List DecoderResults) :
    List DecoderResults :=
  (results.zipIdx.filter fun spot => !noreport && synchronized spot.2).map (·.1)

/-- The transmitter that a callsign names: the callsign without its brackets, and none that
is unresolved. -/
def namedTransmitter (call : CString) : Option CString :=
  if call = bytes "<...>" then none else some (Jt9.unwrapped call)

/-- Each report names the transmitter of its spot, which is a callsign, and a spot of an
unresolved transmitter is not reported. -/
structure NamesTransmitters (spots : List DecoderResults) (reports : List WsprReport) :
    Prop where
  named : reports.map (·.transmitterCall) = spots.filterMap fun spot => namedTransmitter spot.call
  accepted : ∀ report ∈ reports,
    (Jt9.stationNormalizeCallsign (List.replicate 13 0) 13 report.transmitterCall).1 = true

variable {noreport : Bool} {synchronized : Nat → Bool} {options : DecoderOptions}
  {results : List DecoderResults}

/-- The loop makes a report of each result that is synchronized, in the order of the results,
and of none when reports are switched off. -/
theorem postSpotsLoop_reports (index : Nat) (reporter : WsprReporter) :
    (postSpotsLoop noreport synchronized options index results reporter).2 =
      (((results.zipIdx index).filter fun spot => !noreport && synchronized spot.2).map
        (·.1)).map (spotReport options) := by
  induction results generalizing index reporter with
  | nil => rfl
  | cons result results ih =>
      rw [List.zipIdx_cons, List.filter_cons]
      unfold postSpotsLoop
      cases noreport with
      | true => exact ih (index + 1) reporter
      | false =>
          cases hclock : synchronized index with
          | false => exact ih (index + 1) reporter
          | true =>
              simp only [Bool.not_true, Bool.not_false, Bool.and_self, if_true, if_false,
                Bool.false_eq_true, ih, List.map_cons]

/-- The reports are those of the spots to report, in their order. -/
theorem postSpots_reports (reporter : WsprReporter) :
    (postSpots noreport synchronized options results reporter).2 =
      (reportedSpots noreport synchronized results).map (spotReport options) :=
  postSpotsLoop_reports 0 reporter

theorem reportedSpots_subset {spot : DecoderResults}
    (h : spot ∈ reportedSpots noreport synchronized results) : spot ∈ results := by
  obtain ⟨⟨other, index⟩, hmem, rfl⟩ := List.mem_map.mp h
  exact (List.mem_zipIdx' (List.mem_of_mem_filter hmem)).2 ▸ List.getElem_mem _

/-- A callsign that has been read fits into the report's array. -/
theorem scanResult_call {line : CString} {result : DecoderResults}
    (h : scanResult line = some result) : copyText 13 result.call = result.call := by
  -- The seventh of the twelve conversions.
  iterate 6 obtain ⟨_, -, h⟩ := Option.bind_eq_some_iff.mp h
  obtain ⟨⟨call, rest⟩, -, h⟩ := Option.bind_eq_some_iff.mp h
  iterate 5 obtain ⟨_, -, h⟩ := Option.bind_eq_some_iff.mp h
  rw [← Option.some.inj h]
  change copyText 13 (copyText 13 call) = copyText 13 call
  simp only [copyText, List.take_take, Nat.min_self]

theorem isCallsign_named {call : CString} (h : Jt9.IsCallsign call) :
    namedTransmitter call = some call := by
  have hhead := h.head?_ne_less
  have hne : call ≠ bytes "<...>" := by
    rintro rfl
    exact hhead rfl
  rw [namedTransmitter, if_neg hne, Jt9.unwrapped, if_neg]
  simp [hhead]

/-- The reports name transmitters exactly when every reported line has a callsign without
brackets: between the parser of the spots file and the queue nothing looks at the callsign any
more. -/
theorem posted_spots_name_transmitters_iff {resultCapacity : UInt32} {spots : CString}
    (hparse : parseResults resultCapacity (some spots) = (0, results))
    (noreport : Bool) (synchronized : Nat → Bool) (options : DecoderOptions)
    (reporter : WsprReporter) :
    NamesTransmitters (reportedSpots noreport synchronized results)
        (postSpots noreport synchronized options results reporter).2 ↔
      ∀ spot ∈ reportedSpots noreport synchronized results, Jt9.IsCallsign spot.call := by
  have hfits : ∀ spot ∈ reportedSpots noreport synchronized results,
      (spotReport options spot).transmitterCall = spot.call := by
    intro spot hspot
    exact parseResultsLoop_forall (fun _ _ => scanResult_call) (parseResults_loop hparse) spot
      (reportedSpots_subset hspot)
  rw [postSpots_reports]
  constructor
  · rintro ⟨-, haccepted⟩ spot hspot
    have hcall := haccepted _ (List.mem_map_of_mem hspot)
    rw [hfits spot hspot] at hcall
    exact (Jt9.stationNormalizeCallsign_accepts_iff.mp hcall).1
  · intro hplain
    constructor
    · rw [List.map_map]
      symm
      apply List.filterMap_eq_map_iff_forall_eq_some.mpr
      intro spot hspot
      rw [isCallsign_named (hplain spot hspot), Function.comp_apply, hfits spot hspot]
    · intro report hreport
      obtain ⟨spot, hspot, rfl⟩ := List.mem_map.mp hreport
      rw [hfits spot hspot]
      have hcallsign := hplain spot hspot
      exact Jt9.stationNormalizeCallsign_accepts_iff.mpr
        ⟨hcallsign, Nat.lt_succ_of_le hcallsign.length.2⟩

def exampleOptions : DecoderOptions where
  freq := 14095600
  rcall := bytes "N0CALL"
  rloc := bytes "FN42"
  date := bytes "150426"
  uttime := bytes "0918"

def exampleUploader : WsprReporter := wsprReporterStart (bytes "https://wsprnet.org/post") [] 0

/-- The results of the lines of these decodes. -/
def exampleResults (decodes : List Decode) : List DecoderResults :=
  (parseResults 50 (some (spotsFile decodes))).2

/-- `ND6P` -/
theorem standard_spot_named :
    NamesTransmitters (reportedSpots false (fun _ => true) (exampleResults [standardDecode]))
      (postSpots false (fun _ => true) exampleOptions (exampleResults [standardDecode])
        exampleUploader).2 := by
  have hparse : parseResults 50 (some (spotsFile [standardDecode])) =
      (0, exampleResults [standardDecode]) := Prod.ext (by decide +kernel) rfl
  have hcalls : (reportedSpots false (fun _ => true) (exampleResults [standardDecode])).map
      (·.call) = [bytes "ND6P"] := by decide +kernel
  have haccepted : (Jt9.stationNormalizeCallsign (List.replicate 13 0) 13 (bytes "ND6P")).1 =
      true := by decide
  rw [posted_spots_name_transmitters_iff hparse]
  intro spot hspot
  have hcall : spot.call ∈ [bytes "ND6P"] := hcalls ▸ List.mem_map_of_mem hspot
  rw [List.mem_singleton.mp hcall]
  exact (Jt9.stationNormalizeCallsign_accepts_iff.mp haccepted).1

/-- `<W5BIT>` is reported with its brackets. -/
theorem hashed_spot_not_named :
    parseResults 50 (some (spotsFile [hashedDecode])) = (0, exampleResults [hashedDecode]) ∧
      ¬ NamesTransmitters (reportedSpots false (fun _ => true) (exampleResults [hashedDecode]))
        (postSpots false (fun _ => true) exampleOptions (exampleResults [hashedDecode])
          exampleUploader).2 := by
  refine ⟨Prod.ext (by decide +kernel) rfl, fun hnames => ?_⟩
  have hreported : (postSpots false (fun _ => true) exampleOptions (exampleResults [hashedDecode])
      exampleUploader).2.map (·.transmitterCall) = [hashedCallsign (bytes "W5BIT")] := by
    decide +kernel
  have hexpected : (reportedSpots false (fun _ => true) (exampleResults [hashedDecode])).filterMap
      (fun spot => namedTransmitter spot.call) = [bytes "W5BIT"] := by
    decide +kernel
  have hnamed := hnames.named
  rw [hreported, hexpected] at hnamed
  exact absurd hnamed (by decide)

end AirspyhfWsprd.Wspr
