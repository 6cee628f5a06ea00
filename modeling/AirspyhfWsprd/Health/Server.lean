import AirspyhfWsprd.Bands.HopPlan
import AirspyhfWsprd.Library.JsonText

/-!
The state of the health server (`health_server.c`) and the calls that change it. Texts are
held in arrays of a fixed size, so one that is too long is cut off.
-/

namespace AirspyhfWsprd.Health

open Library Bands

/-- The string in a `char` array of this size. -/
structure CharArray (size : Nat) where
  text : CString
  fits : text.length < size

/-- `snprintf(array, sizeof(array), "%s", text)` -/
def CharArray.print {size : Nat} [NeZero size] (text : CString) : CharArray size where
  text := copyText size text
  fits := by
    have hpos := Nat.pos_of_neZero size
    rw [copyText, List.length_take]
    omega

/-- `FT8_HOP_DWELL_SECONDS` and `WSPR_HOP_DWELL_SECONDS` -/
def ft8HopDwellSeconds : UInt32 := 120

def wsprHopDwellSeconds : UInt32 := 600

/-- `struct wspr_health_server`, as far as the calls and the document use it. A text is an
array of its size, as `snprintf` leaves it. -/
structure HealthServer where
  started : Bool
  clockSynchronized : Bool
  decoderBusy : Bool
  reportingEnabled : Bool
  hoppingEnabled : Bool
  adaptiveHopping : Bool
  explorationSlot : Bool
  dialFrequencyHz : UInt32
  hopIntervalSeconds : UInt32
  framesDecoded : UInt64
  spotsDecoded : UInt64
  decoderErrors : UInt64
  lastDecodesFt8lib : UInt32
  lastDecodesJt9 : UInt32
  totalDecodesFt8lib : UInt64
  totalDecodesJt9 : UInt64
  framesDecodedFt8lib : UInt64
  framesDecodedJt9 : UInt64
  airspyOverrunSamples : UInt64
  dspQueueOverrunSamples : UInt64
  startedUnix : Int64
  lastDecodeUnix : Int64
  lastSpotUnix : Int64
  receiverState : CharArray 24
  mode : CharArray 8
  callsign : CharArray 13
  grid : CharArray 7
  band : CharArray 8
  selectedBandsJson : CharArray 256

/-- The arguments of `wspr_health_server_start`, the time, and what the network answers:
whether `inet_pton` takes the address, and whether the socket and the thread can be set up. -/
structure HealthStart where
  bindAddress : CString
  addressValid : Bool
  mode : CString
  callsign : CString
  grid : CString
  reportingEnabled : Bool
  hoppingEnabled : Bool
  adaptiveHopping : Bool
  now : Int64
  threadStarted : Bool

/-- `wspr_health_server_start`: the server when it returns 0. Whether the address is valid and
whether the socket and the thread come up is given by the options. -/
def wsprHealthServerStart (options : HealthStart) : Option HealthServer :=
  if !options.addressValid then none
  else if options.bindAddress.length ≥ 16 ∨ options.mode.length ≥ 8 ∨
      options.callsign.length ≥ 13 ∨ options.grid.length ≥ 7 then none
  else if !options.threadStarted then none
  else some {
    started := true
    clockSynchronized := false
    decoderBusy := false
    reportingEnabled := options.reportingEnabled
    hoppingEnabled := options.hoppingEnabled
    adaptiveHopping := options.adaptiveHopping
    explorationSlot := false
    dialFrequencyHz := 0
    hopIntervalSeconds :=
      if options.hoppingEnabled then
        if options.mode = bytes "FT8" then ft8HopDwellSeconds else wsprHopDwellSeconds
      else 0
    framesDecoded := 0
    spotsDecoded := 0
    decoderErrors := 0
    lastDecodesFt8lib := 0
    lastDecodesJt9 := 0
    totalDecodesFt8lib := 0
    totalDecodesJt9 := 0
    framesDecodedFt8lib := 0
    framesDecodedJt9 := 0
    airspyOverrunSamples := 0
    dspQueueOverrunSamples := 0
    startedUnix := options.now
    lastDecodeUnix := 0
    lastSpotUnix := 0
    receiverState := .print (bytes "starting")
    mode := .print options.mode
    callsign := .print options.callsign
    grid := .print options.grid
    band := .print []
    selectedBandsJson := .print (bytes "[]")}

/-- The loop of `wspr_health_set_selected_bands` from this index on, behind what is in `json`;
nothing where a name does not fit. -/
def selectedBandsLoop (index : Nat) (json : CString) : List WsprHopBand → Option CString
  | [] => some json
  | band :: bands =>
      let separator := if index = 0 then bytes "" else bytes ", "
      let text := separator ++ jsonString band.name
      if text.length ≥ 256 - json.length then none
      else selectedBandsLoop (index + 1) (json ++ text) bands

/-- The text that `wspr_health_set_selected_bands` builds. -/
def selectedBands (plan : WsprHopPlan) : Option CString :=
  match selectedBandsLoop 0 (bytes "[") plan.bands with
  | none => none
  | some json => if json.length + 2 > 256 then none else some (json ++ bytes "]")

/-- The functions that main and the decoder call; `now` is what `time` returns. -/
inductive HealthCall where
  | setReceiverState (state : CString)
  | setClock (synchronized : Bool)
  | setTuning (band : CString) (dialFrequencyHz : UInt32) (explorationSlot : Bool)
  | setSelectedBands (plan : WsprHopPlan)
  | setDecoderBusy (busy : Bool)
  | recordDecode (success : Bool) (spotCount : UInt32) (airspyOverrunSamples : UInt64)
      (dspQueueOverrunSamples : UInt64) (now : Int64)
  | recordFt8Decoders (ft8libSuccess : Bool) (ft8libCount : UInt32) (jt9Success : Bool)
      (jt9Count : UInt32)

def wsprHealthRecordDecode (server : HealthServer) (success : Bool) (spotCount : UInt32)
    (airspyOverrunSamples dspQueueOverrunSamples : UInt64) (now : Int64) : HealthServer :=
  let server := {server with
    lastDecodeUnix := now
    airspyOverrunSamples := server.airspyOverrunSamples + airspyOverrunSamples
    dspQueueOverrunSamples := server.dspQueueOverrunSamples + dspQueueOverrunSamples}
  if success then
    {server with
      framesDecoded := server.framesDecoded + 1
      spotsDecoded := server.spotsDecoded + spotCount.toUInt64
      lastSpotUnix := if spotCount ≠ 0 then server.lastDecodeUnix else server.lastSpotUnix}
  else {server with decoderErrors := server.decoderErrors + 1}

def wsprHealthRecordFt8Decoders (server : HealthServer) (ft8libSuccess : Bool)
    (ft8libCount : UInt32) (jt9Success : Bool) (jt9Count : UInt32) : HealthServer :=
  let server := {server with
    lastDecodesFt8lib := if ft8libSuccess then ft8libCount else 0
    lastDecodesJt9 := if jt9Success then jt9Count else 0}
  let server :=
    if ft8libSuccess then
      {server with
        framesDecodedFt8lib := server.framesDecodedFt8lib + 1
        totalDecodesFt8lib := server.totalDecodesFt8lib + ft8libCount.toUInt64}
    else server
  if jt9Success then
    {server with
      framesDecodedJt9 := server.framesDecodedJt9 + 1
      totalDecodesJt9 := server.totalDecodesJt9 + jt9Count.toUInt64}
  else server

/-- A call from one of the program's threads, under the server's mutex; before the server is
started none of them does anything. -/
def HealthServer.call (server : HealthServer) (call : HealthCall) : HealthServer :=
  if !server.started then server
  else
    match call with
    | .setReceiverState state => {server with receiverState := .print state}
    | .setClock synchronized => {server with clockSynchronized := synchronized}
    | .setTuning band dialFrequencyHz explorationSlot =>
        {server with
          band := .print band
          dialFrequencyHz := dialFrequencyHz
          explorationSlot := explorationSlot}
    | .setSelectedBands plan =>
        match selectedBands plan with
        | none => server
        | some json => {server with selectedBandsJson := .print json}
    | .setDecoderBusy busy => {server with decoderBusy := busy}
    | .recordDecode success spotCount airspyOverrunSamples dspQueueOverrunSamples now =>
        wsprHealthRecordDecode server success spotCount airspyOverrunSamples
          dspQueueOverrunSamples now
    | .recordFt8Decoders ft8libSuccess ft8libCount jt9Success jt9Count =>
        wsprHealthRecordFt8Decoders server ft8libSuccess ft8libCount jt9Success jt9Count

/-- The names shown behind one more call. -/
def namesAfter (names : List CString) : HealthCall → List CString
  | .setSelectedBands plan => plan.bands.map (·.name)
  | _ => names

/-- The names of the last plan that was set. -/
def selectedNames (calls : List HealthCall) : List CString := calls.foldl namesAfter []

/-- The names of a plan fit into their arrays and need no escapes. -/
def HealthCall.NamesFit : HealthCall → Prop
  | .setSelectedBands plan => ∀ band ∈ plan.bands, band.name.length ≤ 7 ∧ Plain band.name
  | _ => True

/-- Behind the first band, each one adds at most eleven characters. -/
theorem selectedBandsLoop_behind {bands : List WsprHopBand}
    (hnames : ∀ band ∈ bands, band.name.length ≤ 7) {index : Nat} (hindex : index ≠ 0)
    (json : CString) (hroom : json.length + 11 * bands.length < 256) :
    selectedBandsLoop index json bands =
        some (json ++ bands.flatMap fun band => bytes ", " ++ jsonString band.name) ∧
      (json ++ bands.flatMap fun band => bytes ", " ++ jsonString band.name).length ≤
        json.length + 11 * bands.length := by
  induction bands generalizing index json with
  | nil =>
      rw [List.flatMap_nil, List.append_nil]
      exact ⟨rfl, Nat.le_refl _⟩
  | cons band bands ih =>
      have hname := hnames band List.mem_cons_self
      have htext : (bytes ", " ++ jsonString band.name).length = band.name.length + 4 := by
        simp [jsonString, bytes]
      rw [List.length_cons] at hroom ⊢
      have hlength : (json ++ (bytes ", " ++ jsonString band.name)).length =
          json.length + (band.name.length + 4) := by
        rw [List.length_append, htext]
      obtain ⟨hloop, hbound⟩ := ih
        (fun other hother => hnames other (List.mem_cons_of_mem _ hother)) (Nat.succ_ne_zero index)
        (json ++ (bytes ", " ++ jsonString band.name)) (by omega)
      have hfits : ¬ (bytes ", " ++ jsonString band.name).length ≥ 256 - json.length := by omega
      rw [List.append_assoc] at hloop hbound
      rw [selectedBandsLoop, if_neg hindex, if_neg hfits, hloop, List.flatMap_cons]
      refine ⟨rfl, hbound.trans ?_⟩
      omega

theorem intercalate_cons_flatMap (separator item : CString) (items : List CString) :
    separator.intercalate (item :: items) = item ++ items.flatMap (separator ++ ·) := by
  induction items generalizing item with
  | nil => rw [List.intercalate_singleton, List.flatMap_nil, List.append_nil]
  | cons next items ih =>
      rw [List.intercalate_cons_cons, ih, List.flatMap_cons, List.append_assoc, List.append_assoc]

/-- With names that fit, the array of a plan fits. -/
theorem selectedBands_fits (plan : WsprHopPlan)
    (hnames : ∀ band ∈ plan.bands, band.name.length ≤ 7) :
    selectedBands plan = some (jsonStrings (plan.bands.map (·.name))) ∧
      (jsonStrings (plan.bands.map (·.name))).length < 256 := by
  have hcount : plan.bands.length ≤ 16 := plan.fits
  rw [selectedBands]
  generalize plan.bands = bands at *
  cases bands with
  | nil => decide
  | cons band bands =>
      have hname := hnames band List.mem_cons_self
      rw [List.length_cons] at hcount
      have htext : (bytes "" ++ jsonString band.name).length = band.name.length + 2 := by
        simp [jsonString, bytes]
      have hfirst : (bytes "[" ++ (bytes "" ++ jsonString band.name)).length =
          band.name.length + 3 := by
        rw [List.length_append, htext, Nat.add_comm]
        rfl
      obtain ⟨hloop, hbound⟩ := selectedBandsLoop_behind
        (fun other hother => hnames other (List.mem_cons_of_mem _ hother)) Nat.one_ne_zero
        (bytes "[" ++ (bytes "" ++ jsonString band.name)) (by omega)
      have hfits : ¬ (bytes "" ++ jsonString band.name).length ≥ 256 - (bytes "[").length := by
        rw [htext]
        exact Nat.not_le.mpr (Nat.lt_of_le_of_lt (Nat.add_le_add_right hname 2) (by decide))
      have hjson : bytes "[" ++ (bytes "" ++ jsonString band.name) ++
          bands.flatMap (fun band => bytes ", " ++ jsonString band.name) ++ bytes "]" =
            jsonStrings ((band :: bands).map (·.name)) := by
        rw [jsonStrings, List.map_map, List.map_cons, intercalate_cons_flatMap, List.flatMap_map,
          ← List.append_assoc]
        rfl
      rw [selectedBandsLoop, if_pos rfl, if_neg hfits, hloop]
      dsimp only
      rw [if_neg (by omega), hjson]
      refine ⟨rfl, ?_⟩
      rw [← hjson, List.length_append]
      exact Nat.lt_of_le_of_lt (Nat.add_le_add_right hbound 1) (by omega)

theorem selectedNames_concat (calls : List HealthCall) (call : HealthCall) :
    selectedNames (calls ++ [call]) = namesAfter (selectedNames calls) call := by
  rw [selectedNames, List.foldl_append]
  rfl

/-- The array in the server is that of these names. -/
structure ShowsNames (server : HealthServer) (names : List CString) : Prop where
  started : server.started = true
  json : server.selectedBandsJson.text = jsonStrings names
  plain : ∀ name ∈ names, Plain name

theorem ShowsNames.kept {server next : HealthServer} {names : List CString}
    (h : ShowsNames server names) (hstarted : next.started = server.started)
    (hjson : next.selectedBandsJson = server.selectedBandsJson) : ShowsNames next names :=
  ⟨hstarted.trans h.started, hjson ▸ h.json, h.plain⟩

/-- Each call of the health server leaves the names it shows those of the last call that set
them. The texts fit into their arrays, so none is cut off. -/
theorem call_showsNames {server : HealthServer} {names : List CString}
    (h : ShowsNames server names) {call : HealthCall} (hcall : call.NamesFit) :
    ShowsNames (server.call call) (namesAfter names call) := by
  have hrunning : ¬ (!server.started) = true := by
    rw [h.started]
    exact Bool.false_ne_true
  unfold HealthServer.call
  rw [if_neg hrunning]
  cases call with
  | setSelectedBands plan =>
      obtain ⟨hjson, hlength⟩ := selectedBands_fits plan fun band hband => (hcall band hband).1
      dsimp only
      rw [hjson]
      refine ⟨h.started, List.take_of_length_le (Nat.le_of_lt_succ hlength), ?_⟩
      intro name hname
      obtain ⟨band, hband, rfl⟩ := List.mem_map.mp hname
      exact (hcall band hband).2
  | setReceiverState state => exact h.kept rfl rfl
  | setClock synchronized => exact h.kept rfl rfl
  | setTuning band dialFrequencyHz explorationSlot => exact h.kept rfl rfl
  | setDecoderBusy busy => exact h.kept rfl rfl
  | recordDecode success spotCount airspyOverrunSamples dspQueueOverrunSamples now =>
      dsimp only [wsprHealthRecordDecode]
      split
      · exact h.kept rfl rfl
      · exact h.kept rfl rfl
  | recordFt8Decoders ft8libSuccess ft8libCount jt9Success jt9Count =>
      dsimp only [wsprHealthRecordFt8Decoders]
      split
      · split
        · exact h.kept rfl rfl
        · exact h.kept rfl rfl
      · split
        · exact h.kept rfl rfl
        · exact h.kept rfl rfl

theorem start_showsNames {options : HealthStart} {server : HealthServer}
    (hstart : wsprHealthServerStart options = some server) : ShowsNames server [] := by
  rw [wsprHealthServerStart] at hstart
  split at hstart
  · cases hstart
  split at hstart
  · cases hstart
  split at hstart
  · cases hstart
  · obtain rfl := Option.some.inj hstart
    exact ⟨rfl, rfl, fun _ hname => absurd hname List.not_mem_nil⟩

/-- In every state the array is that of the last plan that was set. -/
theorem calls_showNames {options : HealthStart} {server : HealthServer}
    (hstart : wsprHealthServerStart options = some server) {calls : List HealthCall}
    (hnames : ∀ call ∈ calls, call.NamesFit) :
    ShowsNames (calls.foldl HealthServer.call server) (selectedNames calls) := by
  induction calls using List.reverseRecOn with
  | nil => exact start_showsNames hstart
  | append_singleton calls call ih =>
      rw [List.foldl_append, selectedNames_concat]
      exact call_showsNames (ih fun other hother => hnames other (List.mem_append_left _ hother))
        (hnames call (List.mem_append_right _ (List.mem_singleton_self call)))

end AirspyhfWsprd.Health
