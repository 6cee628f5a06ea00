import Mathlib.Data.List.DropRight
import AirspyhfWsprd.Jt9.Station
import AirspyhfWsprd.Library.Scanf

/-!
The parser of `jt9_decoder.c` for the lines that the jt9 process prints. The
fields in front of the message are scanned; the transmitter's callsign is looked
for among the words of the message.
-/

namespace AirspyhfWsprd.Jt9

open Library

def ftxMaxMessageLength : Nat := 35

/-- `struct ft8_decode_result`. The callsign and the grid are the bytes of their
arrays, the message is the string in its array. -/
structure Ft8DecodeResult where
  snr : FloatValue
  dt : FloatValue
  audioFrequencyHz : FloatValue
  transmitterCall : List UInt8
  transmitterGrid : List UInt8
  message : CString

/-- A callsign in angle brackets loses them. -/
def unwrapped (source : CString) : CString :=
  let length := source.length
  if length ≥ 2 && source.head? == some '<'.toUInt8 && source.getLast? == some '>'.toUInt8 &&
      length - 2 < 13 then (source.drop 1).take (length - 2)
  else source

/-- `normalize_jt9_callsign` -/
def normalizeJt9Callsign (destination : List UInt8) (source : CString) : Bool × List UInt8 :=
  stationNormalizeCallsign destination 13 (unwrapped source)

/-- The loop over the words behind `CQ`: the index of the first that is accepted. -/
def tryCallsigns (call : List UInt8) (index : Nat) : List CString → Option Nat × List UInt8
  | [] => (none, call)
  | token :: rest =>
      let (accepted, call) := normalizeJt9Callsign call token
      if accepted then (some index, call) else tryCallsigns call (index + 1) rest

/-- The words of a message that `decode_report_fields` looks at. -/
def messageTokens (message : CString) : List CString := (strtok ' '.toUInt8 message).take 8

/-- `decode_report_fields`: behind a `CQ` the words are tried from the second on, in any other
message the second alone. The grid is looked for behind the word that was accepted. -/
def decodeReportFields (result : Ft8DecodeResult) : Ft8DecodeResult :=
  let tokens := messageTokens result.message
  let result := {result with
    transmitterCall := result.transmitterCall.set 0 0
    transmitterGrid := result.transmitterGrid.set 0 0}
  match tokens with
  | first :: second :: rest =>
      let (senderIndex, call) :=
        if first = bytes "CQ" then tryCallsigns result.transmitterCall 1 (second :: rest)
        else
          let (accepted, call) := normalizeJt9Callsign result.transmitterCall second
          (if accepted then some 1 else none, call)
      let grid :=
        match senderIndex.bind fun index => tokens[index + 1]? with
        | some token => (stationNormalizeGrid result.transmitterGrid 7 token).2
        | none => result.transmitterGrid
      {result with transmitterCall := call, transmitterGrid := grid}
  | _ => result

/-- What `sscanf` finds in a line. -/
structure Jt9Fields where
  utc : CString
  snr : FloatValue
  dt : FloatValue
  audioFrequencyHz : FloatValue
  marker : CString
  messageOffset : Nat

/-- `sscanf(line, "%6[0-9] %f %f %f %7s %n", ...)`, when all five fields match -/
def scanJt9Line (line : CString) : Option Jt9Fields := do
  let (utc, rest) ← scanClass 6 isdigit line
  let (snr, rest) ← scanFloat binary32 rest
  let (dt, rest) ← scanFloat binary32 rest
  let (audioFrequencyHz, rest) ← scanFloat binary32 rest
  let (marker, rest) ← scanString 7 rest
  some ⟨utc, snr, dt, audioFrequencyHz, marker, line.length - (skipSpace rest).length⟩

/-- The fields are those of an FT8 decode. A value that is not a number passes the
range checks. -/
def acceptedFields (fields : Jt9Fields) : Bool :=
  !(fields.utc.length != 6 || fields.marker != bytes "~" || fields.messageOffset == 0 ||
    fields.snr.ltInt (-60) || fields.snr.gtInt 60 || fields.dt.ltInt (-5) || fields.dt.gtInt 5 ||
    fields.audioFrequencyHz.ltInt 100 || fields.audioFrequencyHz.gtInt 5000)

/-- The message behind the fields of a line, without the white space at its end. -/
def messageText (line : CString) (messageOffset : Nat) : CString :=
  (copyText ftxMaxMessageLength (line.drop messageOffset)).rdropWhile isspace

/-- `jt9_parse_decode_line`: the result when the line is accepted. The scan of the numbers
comes first, and the text behind them may not be blank. -/
def jt9ParseDecodeLine (line : CString) : Option Ft8DecodeResult := do
  let fields ← scanJt9Line line
  if !acceptedFields fields then none
  else
    let message := messageText line fields.messageOffset
    if message = [] then none
    else some (decodeReportFields
      { snr := fields.snr
        dt := fields.dt
        audioFrequencyHz := fields.audioFrequencyHz
        transmitterCall := List.replicate 13 0
        transmitterGrid := List.replicate 7 0
        message := message })

end AirspyhfWsprd.Jt9
