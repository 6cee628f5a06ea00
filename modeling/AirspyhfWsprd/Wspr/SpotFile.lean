import AirspyhfWsprd.Library.PrintedText

/-!
The spots file between the two programs: the core of `wsprd.c` prints one line for
each decode, `parse_results` of `decoder_bridge.c` reads the lines back.
-/

namespace AirspyhfWsprd.Wspr

open Library

/-- The messages `unpk_` makes: a callsign with a grid and a power, a callsign with
a prefix or suffix and only a power, or a callsign known by its hash in angle
brackets with a six-character grid. -/
inductive WsprMessage where
  | type1 (callsign grid : CString) (ndbm : Nat)
  | type2 (callsign : CString) (ndbm : Nat)
  | type3 (callsign grid6 : CString) (ndbm : Nat)

/-- `sprintf(cdbm, "%2d", ndbm)` -/
def cdbm (ndbm : Nat) : CString := padLeft 2 (decimal ndbm)

/-- The text that `unpk_` stores in `call_loc_pow`. -/
def WsprMessage.callLocPow : WsprMessage → CString
  | .type1 callsign grid ndbm =>
      copyText 23 (callsign ++ bytes " " ++ grid ++ bytes " " ++ cdbm ndbm)
  | .type2 callsign ndbm => copyText 23 (callsign ++ bytes " " ++ cdbm ndbm)
  | .type3 callsign grid6 ndbm =>
      copyText 23 (callsign ++ bytes " " ++ grid6 ++ bytes " " ++ cdbm ndbm)

/-- The bounds that `unpk_` keeps: six characters for a plain callsign and twelve
with a prefix, suffix or brackets, and two digits for the power. -/
def WsprMessage.WellFormed : WsprMessage → Prop
  | .type1 callsign grid ndbm => IsWord 6 callsign ∧ IsWord 4 grid ∧ ndbm < 100
  | .type2 callsign ndbm => IsWord 12 callsign ∧ ndbm < 100
  | .type3 callsign grid6 ndbm => IsWord 12 callsign ∧ IsWord 6 grid6 ∧ ndbm < 100

/-- What the core prints of an entry of `decodes`. The synchronization and the
drift are converted to `int` and the cycles divided before they are printed. The
dial frequency has 32 bits in Hz, so a frequency in MHz is below a million. -/
structure Decode where
  date : CString
  time : CString
  syncTenths : Int32
  snr : FloatValue
  dt : FloatValue
  freq : FloatValue
  message : WsprMessage
  drift : Int32
  cycles : UInt32
  jitter : Int32
  date_word : IsWord 6 date
  time_word : IsWord 4 time
  snr_float : snr.InFormat binary32
  dt_float : dt.InFormat binary32
  freq_below : freq.Below 6
  message_wellFormed : message.WellFormed

/-- `fprintf(fwsprd, "%6s %4s %3d %3.0f %4.1f %10.6f  %-22s %2d %5u %4d\n", ...)` -/
def spotLine (d : Decode) : CString :=
  padLeft 6 d.date ++ bytes " " ++ padLeft 4 d.time ++ bytes " " ++
    padLeft 3 (printInt d.syncTenths.toInt) ++ bytes " " ++ padLeft 3 (printFixed 0 d.snr) ++
    bytes " " ++ padLeft 4 (printFixed 1 d.dt) ++ bytes " " ++ padLeft 10 (printFixed 6 d.freq) ++
    bytes "  " ++ padRight 22 d.message.callLocPow ++ bytes " " ++
    padLeft 2 (printInt d.drift.toInt) ++ bytes " " ++ padLeft 5 (decimal d.cycles.toNat) ++
    bytes " " ++ padLeft 4 (printInt d.jitter.toInt) ++ bytes "\n"

/-- `wspr_spots.txt` -/
def spotsFile (decodes : List Decode) : CString := decodes.flatMap spotLine

/-- `struct decoder_results`, the strings without their terminators -/
structure DecoderResults where
  freq : FloatValue
  sync : FloatValue
  snr : FloatValue
  dt : FloatValue
  drift : FloatValue
  jitter : Int32
  message : CString
  call : CString
  loc : CString
  pwr : CString
  cycles : UInt32

/-- `fgets` with room for this many characters and the terminator: the text up to and with the
next newline, or as much as there is room for, and the rest. -/
def fgetsLoop : (room : Nat) → CString → CString × CString
  | 0, input => ([], input)
  | _, [] => ([], [])
  | room + 1, c :: input =>
      if c = '\n'.toUInt8 then ([c], input)
      else
        let (line, rest) := fgetsLoop room input
        (c :: line, rest)

/-- `fgets(line, size, input)`: nothing at the end of the input -/
def fgets (size : Nat) (input : CString) : Option (CString × CString) :=
  if input = [] then none else some (fgetsLoop (size - 1) input)

/-- `sscanf` of a line with all twelve fields found, and the result made of them -/
def scanResult (line : CString) : Option DecoderResults := do
  let (_date, rest) ← scanString 6 line
  let (_time, rest) ← scanString 4 rest
  let (syncTenths, rest) ← scanInt rest
  let (snr, rest) ← scanFloat binary32 rest
  let (dt, rest) ← scanFloat binary32 rest
  let (frequency, rest) ← scanFloat binary64 rest
  let (call, rest) ← scanString 12 rest
  let (grid, rest) ← scanString 6 rest
  let (power, rest) ← scanString 2 rest
  let (drift, rest) ← scanInt rest
  let (cycles, rest) ← scanUnsigned rest
  let (jitter, _rest) ← scanInt rest
  some
    { freq := frequency
      sync := (FloatValue.ofInt binary32 syncTenths.toInt).divNat binary32 10
      snr := snr
      dt := dt
      drift := FloatValue.ofInt binary32 drift.toInt
      jitter := jitter
      cycles := cycles
      call := copyText 13 call
      loc := copyText 7 grid
      pwr := copyText 3 power
      message := copyText 23 (call ++ bytes " " ++ grid ++ bytes " " ++ power) }

/-- The loop of `parse_results`, with room for this many more results. One line that is not
scanned whole makes the call fail, and the results before it are not used. -/
def parseResultsLoop : (room : Nat) → CString → Option (List DecoderResults)
  | 0, _ => some []
  | room + 1, input =>
      match fgets 256 input with
      | none => some []
      | some (line, rest) => do
          let result ← scanResult line
          let results ← parseResultsLoop room rest
          some (result :: results)

/-- `parse_results`: the value it returns and the results that `*result_count`
counts -/
def parseResults (resultCapacity : UInt32) (spots : Option CString) : Int × List DecoderResults :=
  match spots with
  | none => (-1, [])
  | some input =>
      match parseResultsLoop resultCapacity.toNat input with
      | none => (-1, [])
      | some results => (0, results)

end AirspyhfWsprd.Wspr
