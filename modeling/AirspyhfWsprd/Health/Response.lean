import AirspyhfWsprd.Health.Server
import AirspyhfWsprd.Library.PrintedText
import AirspyhfWsprd.Library.RoundedInteger
import Mathlib.Tactic.Ring

/-!
The document of the health endpoint. Whatever the state of the server, the document and the
response fit into their buffers, so the answer is never an internal error.
-/

namespace AirspyhfWsprd.Health

open Library Bands

/-- `HEALTH_JSON_CAPACITY` -/
def healthJsonCapacity : Nat := 2048

def HealthServer.healthy (server : HealthServer) : Bool :=
  server.clockSynchronized &&
    (server.receiverState.text == bytes "waiting" || server.receiverState.text == bytes "capturing")

/-- Decodes for each frame, as a `double`. -/
def averageDecodes (total frames : UInt64) : FloatValue :=
  if frames = 0 then .finite false 0 0
  else .div binary64 (.ofInt binary64 total.toNat) (.ofInt binary64 frames.toNat)

def HealthServer.reportingNetwork (server : HealthServer) : CString :=
  if server.reportingEnabled then
    if server.mode.text = bytes "FT8" then bytes "PSK Reporter" else bytes "WSPRnet"
  else bytes "disabled"

/-- The members of the document with their texts, in the order of the format. The queue depth
is that of the callback, if there is one. -/
def healthMembers (server : HealthServer) (queueDepth : Option UInt64) (now : Int64) :
    List (CString × CString) :=
  [(bytes "healthy", jsonBool server.healthy),
   (bytes "receiver_state", jsonString server.receiverState.text),
   (bytes "mode", jsonString server.mode.text),
   (bytes "clock_synchronized", jsonBool server.clockSynchronized),
   (bytes "decoder_busy", jsonBool server.decoderBusy),
   (bytes "callsign", jsonString server.callsign.text),
   (bytes "grid", jsonString server.grid.text),
   (bytes "band", jsonString server.band.text),
   (bytes "dial_frequency_hz", decimal server.dialFrequencyHz.toNat),
   (bytes "band_hopping", jsonBool server.hoppingEnabled),
   (bytes "hop_interval_seconds", decimal server.hopIntervalSeconds.toNat),
   (bytes "adaptive_hopping", jsonBool server.adaptiveHopping),
   (bytes "selected_bands", server.selectedBandsJson.text),
   (bytes "exploration_slot", jsonBool server.explorationSlot),
   (bytes "reporting_enabled", jsonBool server.reportingEnabled),
   (bytes "reporting_network", jsonString server.reportingNetwork),
   (bytes "report_queue_depth", decimal (queueDepth.getD 0).toNat),
   (bytes "frames_decoded", decimal server.framesDecoded.toNat),
   (bytes "spots_decoded", decimal server.spotsDecoded.toNat),
   (bytes "decoder_errors", decimal server.decoderErrors.toNat),
   (bytes "last_decodes_ft8lib", decimal server.lastDecodesFt8lib.toNat),
   (bytes "last_decodes_jt9", decimal server.lastDecodesJt9.toNat),
   (bytes "total_decodes_ft8lib", decimal server.totalDecodesFt8lib.toNat),
   (bytes "total_decodes_jt9", decimal server.totalDecodesJt9.toNat),
   (bytes "frames_decoded_ft8lib", decimal server.framesDecodedFt8lib.toNat),
   (bytes "frames_decoded_jt9", decimal server.framesDecodedJt9.toNat),
   (bytes "average_decodes_ft8lib",
    printFixed 2 (averageDecodes server.totalDecodesFt8lib server.framesDecodedFt8lib)),
   (bytes "average_decodes_jt9",
    printFixed 2 (averageDecodes server.totalDecodesJt9 server.framesDecodedJt9)),
   (bytes "airspy_overrun_samples", decimal server.airspyOverrunSamples.toNat),
   (bytes "dsp_queue_overrun_samples", decimal server.dspQueueOverrunSamples.toNat),
   (bytes "started_unix", printInt server.startedUnix.toInt),
   (bytes "uptime_seconds", printInt (now - server.startedUnix).toInt),
   (bytes "last_decode_unix", printInt server.lastDecodeUnix.toInt),
   (bytes "last_spot_unix", printInt server.lastSpotUnix.toInt),
   (bytes "version", jsonString (bytes "0.9"))]

def healthJson (server : HealthServer) (queueDepth : Option UInt64) (now : Int64) : CString :=
  jsonObject (healthMembers server queueDepth now)

def plainResponse (status : Nat) (reason : CString) : CString :=
  bytes "HTTP/1.1 " ++ printInt status ++ bytes " " ++ reason ++
    bytes "\r\nContent-Type: text/plain\r\nContent-Length: 0\r\nCache-Control: no-store\r\n" ++
    bytes "Connection: close\r\n\r\n"

/-- `send_plain_response`: what it sends, if anything -/
def sendPlainResponse (status : Nat) (reason : CString) : Option CString :=
  let response := plainResponse status reason
  if 0 < response.length ∧ response.length < 256 then some response else none

def healthResponse (healthy : Bool) (json : CString) : CString :=
  bytes "HTTP/1.1 " ++ printInt (if healthy then 200 else 503) ++ bytes " " ++
    (if healthy then bytes "OK" else bytes "Service Unavailable") ++
    bytes "\r\nContent-Type: application/json\r\nContent-Length: " ++ printInt json.length ++
    bytes "\r\nCache-Control: no-store\r\nX-Content-Type-Options: nosniff\r\n" ++
    bytes "Connection: close\r\n\r\n" ++ json

/-- `send_health_response`: what it sends, if anything. A document or a response that
`snprintf` had to cut is not sent. -/
def sendHealthResponse (server : HealthServer) (queueDepth : Option UInt64) (now : Int64) :
    Option CString :=
  let json := healthJson server queueDepth now
  if json.length ≥ healthJsonCapacity then
    sendPlainResponse 500 (bytes "Internal Server Error")
  else
    let response := healthResponse server.healthy json
    if 0 < response.length ∧ response.length < healthJsonCapacity + 384 then some response
    else none

/-- The document fits, and so does the response: it is sent. -/
structure ResponseFits (server : HealthServer) (queueDepth : Option UInt64) (now : Int64) :
    Prop where
  json : (healthJson server queueDepth now).length < healthJsonCapacity
  response : (healthResponse server.healthy (healthJson server queueDepth now)).length <
    healthJsonCapacity + 384
  sent : sendHealthResponse server queueDepth now =
    some (healthResponse server.healthy (healthJson server queueDepth now))

/-- The most characters that the members' texts can have. -/
def memberLimits : List Nat :=
  [5, 25, 9, 5, 5, 14, 8, 9, 10, 5, 10, 5, 255, 5, 5, 14, 20, 20, 20, 20, 10, 10, 20, 20, 20, 20,
   25, 25, 20, 20, 20, 20, 20, 20, 5]

theorem decimal_uint32_length (value : UInt32) : (decimal value.toNat).length ≤ 10 :=
  decimal_length_le (by decide) (value.toNat_lt.trans (by decide))

theorem decimal_uint64_length (value : UInt64) : (decimal value.toNat).length ≤ 20 :=
  decimal_length_le (by decide) (value.toNat_lt.trans (by decide))

theorem printInt_int64_length (value : Int64) : (printInt value.toInt).length ≤ 20 := by
  have hlow := Int64.le_toInt value
  have hhigh := Int64.toInt_lt value
  have hdigits : (decimal value.toInt.natAbs).length ≤ 19 :=
    decimal_length_le (by decide) (by omega)
  rw [printInt]
  split
  · exact Nat.succ_le_succ hdigits
  · exact hdigits.trans (Nat.le_succ 19)

theorem CharArray.quoted_length {size : Nat} (array : CharArray size) :
    (jsonString array.text).length ≤ size + 1 := by
  have hfits := array.fits
  rw [jsonString_length]
  omega

theorem reportingNetwork_length (server : HealthServer) :
    (jsonString server.reportingNetwork).length ≤ 14 := by
  rw [HealthServer.reportingNetwork]
  split
  · split
    · decide
    · decide
  · decide

/-- A quotient of natural numbers is at most the dividend. -/
theorem div_below {x y : FloatValue} {total frames : Nat} (hx : x.IsNat total)
    (hy : y.IsNat frames) (hframes : 0 < frames) (htotal : total < 2 ^ 65) :
    (FloatValue.div binary64 x y).Below 20 := by
  obtain @⟨mantissa, exponent, _, hdividend⟩ := hx
  obtain @⟨mantissa', exponent', _, hdivisor⟩ := hy
  have hmantissa : mantissa' ≠ 0 := by
    rintro rfl
    rw [Nat.zero_mul] at hdivisor
    exact (Nat.mul_pos hframes (Nat.two_pow_pos _)).ne hdivisor
  have hden : 0 < mantissa' * 2 ^ (exponent' - exponent).toNat :=
    Nat.mul_pos (Nat.pos_of_ne_zero hmantissa) (Nat.two_pow_pos _)
  have hexponents : (-exponent).toNat + exponent'.toNat + (exponent - exponent').toNat =
      exponent.toNat + (-exponent').toNat + (exponent' - exponent).toNat := by omega
  have hquotient : mantissa * 2 ^ (exponent - exponent').toNat * frames =
      total * (mantissa' * 2 ^ (exponent' - exponent).toNat) := by
    apply Nat.eq_of_mul_eq_mul_right (Nat.two_pow_pos (exponent.toNat + (-exponent').toNat))
    calc mantissa * 2 ^ (exponent - exponent').toNat * frames *
          2 ^ (exponent.toNat + (-exponent').toNat)
        = mantissa * 2 ^ exponent.toNat * (frames * 2 ^ (-exponent').toNat) *
            2 ^ (exponent - exponent').toNat := by rw [Nat.pow_add]; ring
      _ = total * mantissa' * 2 ^ ((-exponent).toNat + exponent'.toNat +
            (exponent - exponent').toNat) := by
          rw [hdividend, ← hdivisor, Nat.pow_add, Nat.pow_add]; ring
      _ = total * (mantissa' * 2 ^ (exponent' - exponent).toNat) *
            2 ^ (exponent.toNat + (-exponent').toNat) := by
          rw [hexponents, Nat.pow_add]; ring
  rw [FloatValue.div, if_neg hmantissa]
  apply roundRatio_below (k := 65) (by decide) ?_ (by decide)
  calc mantissa * 2 ^ (exponent - exponent').toNat
      ≤ mantissa * 2 ^ (exponent - exponent').toNat * frames := Nat.le_mul_of_pos_right _ hframes
    _ = total * (mantissa' * 2 ^ (exponent' - exponent).toNat) := hquotient
    _ < 2 ^ 65 * (mantissa' * 2 ^ (exponent' - exponent).toNat) :=
        Nat.mul_lt_mul_of_pos_right htotal hden

theorem log2_lt_64 (value : UInt64) : Nat.log2 value.toNat < 64 := by
  rcases Nat.eq_zero_or_pos value.toNat with hzero | hpos
  · rw [hzero]
    decide
  · exact (Nat.log2_lt hpos.ne').mpr value.toNat_lt

/-- A counter as a `double`. -/
theorem ofInt_uint64 (value : UInt64) :
    (FloatValue.ofInt binary64 value.toNat).IsNat (roundSignificand 53 value.toNat) := by
  have hlog := log2_lt_64 value
  refine ofInt_isNat ⟨by decide, by decide, ?_⟩
  dsimp only [binary64]
  omega

/-- The average number of decodes is a quotient of two 64-bit counters, so twenty digits are
enough for its whole part. -/
theorem averageDecodes_below (total frames : UInt64) : (averageDecodes total frames).Below 20 := by
  rw [averageDecodes]
  split
  · rw [FloatValue.Below]
    decide
  · rename_i hframes
    have hpos : 2 ^ 0 ≤ frames.toNat := by
      rw [Nat.pow_zero, Nat.one_le_iff_ne_zero]
      exact fun hzero => hframes (UInt64.toNat_inj.mp hzero)
    have hspacing : significandSpacing 53 total.toNat ≤ 2 ^ 11 := by
      have hlog := log2_lt_64 total
      exact Nat.pow_le_pow_right Nat.two_pos (by omega)
    have hnear := (roundSignificand_near (Eq.refl (roundSignificand 53 total.toNat))).1
    have htotal := total.toNat_lt
    exact div_below (ofInt_uint64 total) (ofInt_uint64 frames)
      (pow_le_roundSignificand (by decide) hpos) (by omega)

theorem healthMembers_limits (server : HealthServer) (queueDepth : Option UInt64) (now : Int64) :
    List.Forall₂ (fun member limit => member.2.length ≤ limit)
      (healthMembers server queueDepth now) memberLimits := by
  have haverage (total frames : UInt64) :
      (printFixed 2 (averageDecodes total frames)).length ≤ 25 :=
    (printFixed_word (by decide) (averageDecodes_below total frames) 2).length
  have hbands : server.selectedBandsJson.text.length ≤ 255 :=
    Nat.le_of_lt_succ server.selectedBandsJson.fits
  simp only [healthMembers, memberLimits, List.forall₂_cons, jsonBool_length, true_and,
    CharArray.quoted_length, decimal_uint32_length, decimal_uint64_length, printInt_int64_length,
    haverage, hbands, reportingNetwork_length, List.forall₂_nil_left_iff, and_true]
  decide

theorem healthJson_length (server : HealthServer) (queueDepth : Option UInt64) (now : Int64) :
    (healthJson server queueDepth now).length < healthJsonCapacity := by
  have hkeys : ((healthMembers server queueDepth now).map (·.1.length)).sum = 521 := by
    simp only [healthMembers, List.map_cons, List.map_nil]
    decide +kernel
  have hcount : (healthMembers server queueDepth now).length = 35 := rfl
  have hlimits : memberLimits.sum = 744 := rfl
  have hlength := jsonObject_length (healthMembers_limits server queueDepth now)
  rw [hkeys, hcount, hlimits] at hlength
  exact Nat.lt_of_le_of_lt hlength (by decide)

theorem statusLine_length (healthy : Bool) :
    (bytes "HTTP/1.1 " ++ printInt (if healthy then 200 else 503) ++ bytes " " ++
      (if healthy then bytes "OK" else bytes "Service Unavailable")).length ≤ 32 := by
  cases healthy
  · decide
  · decide

/-- The header adds fewer than 384 bytes to the document, whatever the document's length is,
since that is printed as a number below the capacity. -/
theorem healthResponse_length (healthy : Bool) {json : CString}
    (hjson : json.length < healthJsonCapacity) :
    0 < (healthResponse healthy json).length ∧
      (healthResponse healthy json).length < healthJsonCapacity + 384 := by
  have hstatus := statusLine_length healthy
  have htype : (bytes "\r\nContent-Type: application/json\r\nContent-Length: ").length = 50 := by
    decide +kernel
  have hoptions : (bytes
      "\r\nCache-Control: no-store\r\nX-Content-Type-Options: nosniff\r\n").length = 60 := by
    decide +kernel
  have hclose : (bytes "Connection: close\r\n\r\n").length = 21 := by decide +kernel
  have hcapacity : healthJsonCapacity = 2048 := rfl
  have hdigits : (printInt json.length).length ≤ 4 :=
    decimal_length_le (by decide) (by omega)
  rw [healthResponse, List.length_append, List.length_append, List.length_append,
    List.length_append, List.length_append, htype, hoptions, hclose]
  omega

theorem response_fits (server : HealthServer) (queueDepth : Option UInt64) (now : Int64) :
    ResponseFits server queueDepth now := by
  have hjson := healthJson_length server queueDepth now
  have hresponse := healthResponse_length server.healthy hjson
  refine ⟨hjson, hresponse.2, ?_⟩
  rw [sendHealthResponse, if_neg (Nat.not_le.mpr hjson)]
  exact if_pos hresponse

/-- What holds of the server after any calls: the document is sent, and shows these bands. -/
structure HealthShown (server : HealthServer) (names : List CString)
    (queueDepth : Option UInt64) (now : Int64) : Prop where
  fits : ResponseFits server queueDepth now
  bands : server.selectedBandsJson.text = jsonStrings names
  read : readStrings server.selectedBandsJson.text = some names

/-- Whatever is called, the document is sent and shows the last plan that was set. The names
fill their buffers at most, so the document has a bound that is below the size of the response.
-/
theorem health_shown_in_every_run {options : HealthStart} {server : HealthServer}
    (hstart : wsprHealthServerStart options = some server) {calls : List HealthCall}
    (hnames : ∀ call ∈ calls, call.NamesFit) (queueDepth : Option UInt64) (now : Int64) :
    HealthShown (calls.foldl HealthServer.call server) (selectedNames calls) queueDepth now := by
  have hshown := calls_showNames hstart hnames
  refine ⟨response_fits _ queueDepth now, hshown.json, ?_⟩
  rw [hshown.json]
  exact readStrings_jsonStrings hshown.plain

def exampleStart : HealthStart where
  bindAddress := bytes "127.0.0.1"
  addressValid := true
  mode := bytes "WSPR"
  callsign := bytes "N0CAL"
  grid := bytes "DM04"
  reportingEnabled := true
  hoppingEnabled := true
  adaptiveHopping := true
  now := 1200
  threadStarted := true

theorem exampleStart_starts : (wsprHealthServerStart exampleStart).isSome = true := rfl

def examplePlan : WsprHopPlan :=
  ⟨[⟨bytes "20m", 14095600, 14⟩, ⟨bytes "1.25m", 222280000, 222⟩], by decide⟩

def exampleCalls : List HealthCall :=
  [.setClock true, .setSelectedBands examplePlan, .setReceiverState (bytes "capturing"),
    .recordDecode true 2 6144 18446744073709551615 1320]

theorem exampleCalls_fit : ∀ call ∈ exampleCalls, call.NamesFit := by
  have hplan : ∀ band ∈ examplePlan.bands, band.name.length ≤ 7 ∧
      band.name.all (fun c => c != '"'.toUInt8 && c != '\\'.toUInt8) = true := by decide
  intro call hcall
  simp only [exampleCalls, List.mem_cons, List.not_mem_nil, or_false] at hcall
  rcases hcall with rfl | rfl | rfl | rfl
  · trivial
  · intro band hband
    refine ⟨(hplan band hband).1, fun c hc => ?_⟩
    have hplain := List.all_eq_true.mp (hplan band hband).2 c hc
    simpa using hplain
  · trivial
  · trivial

/-- A plan is set, and a decode is recorded. -/
theorem exampleCalls_shown :
    HealthShown (exampleCalls.foldl HealthServer.call
      ((wsprHealthServerStart exampleStart).get exampleStart_starts))
      [bytes "20m", bytes "1.25m"] (some 3) 1320 :=
  health_shown_in_every_run (Option.some_get exampleStart_starts).symm exampleCalls_fit (some 3)
    1320

end AirspyhfWsprd.Health
