import Mathlib.Data.List.DropRight
import AirspyhfWsprd.Ft8.CallsignTable
import AirspyhfWsprd.Ft8.MessageFields

/-!
The decoding half of `message.c`: from a payload of 77 bits to the fields of a standard
message or of one with a nonstandard call, and to the text of any message. Callsigns pass
through the callsign table, which a hashed one is looked up in and every other one is
saved in.
-/

namespace AirspyhfWsprd.Ft8

open Library Jt9

/-- `ft8_char_table_e` -/
inductive CharTable where
  | full
  | alphanumSpaceSlash
  | alphanumSpace
  | lettersSpace
  | alphanum
  | numeric
deriving DecidableEq

def charn (c : Nat) (table : CharTable) : UInt8 :=
  let hasSpace := table ≠ .alphanum ∧ table ≠ .numeric
  if hasSpace ∧ c = 0 then ' '.toUInt8
  else
    let c := if hasSpace then c - 1 else c
    let hasDigits := table ≠ .lettersSpace
    if hasDigits ∧ c < 10 then UInt8.ofNat ('0'.toNat + c)
    else
      let c := if hasDigits then c - 10 else c
      let hasLetters := table ≠ .numeric
      if hasLetters ∧ c < 26 then UInt8.ofNat ('A'.toNat + c)
      else
        let c := if hasLetters then c - 26 else c
        if table = .full ∧ c < 5 then (bytes "+-./?").getD c 0
        else if table = .alphanumSpaceSlash ∧ c = 0 then '/'.toUInt8
        else '_'.toUInt8

def nchar (c : UInt8) (table : CharTable) : Option Nat :=
  let hasSpace := table ≠ .alphanum ∧ table ≠ .numeric
  if hasSpace ∧ c = ' '.toUInt8 then some 0
  else
    let n := if hasSpace then 1 else 0
    let hasDigits := table ≠ .lettersSpace
    if hasDigits ∧ isdigit c then some (n + (c - '0'.toUInt8).toNat)
    else
      let n := if hasDigits then n + 10 else n
      let hasLetters := table ≠ .numeric
      if hasLetters ∧ isupper c then some (n + (c - 'A'.toUInt8).toNat)
      else
        let n := if hasLetters then n + 26 else n
        if table = .full then ((bytes "+-./?").findIdx? (· == c)).map (n + ·)
        else if table = .alphanumSpaceSlash ∧ c = '/'.toUInt8 then some n
        else none

def trimFront (text : CString) : CString := text.dropWhile (· == ' '.toUInt8)

/-- `trim_copy` and `trim` -/
def trimCopy (text : CString) : CString := (trimFront text).rdropWhile (· == ' '.toUInt8)

/-- The loop of `int_to_dd` from the divisor `10 ^ zeros` on. -/
def ddDigits (value : Nat) : (zeros : Nat) → CString
  | 0 => [UInt8.ofNat ('0'.toNat + value)]
  | zeros + 1 =>
      let divisor := 10 ^ (zeros + 1)
      let digit := value / divisor
      UInt8.ofNat ('0'.toNat + digit) :: ddDigits (value - digit * divisor) zeros

def intToDd (value : Int) (width : Nat) (fullSign : Bool) : CString :=
  (if value < 0 then bytes "-" else if fullSign then bytes "+" else []) ++
    ddDigits value.natAbs (width - 1)

/-- The number of the first eleven characters, blanks behind a shorter callsign. -/
def callsignNumber (callsign : CString) : Option Nat :=
  let head := callsign.take 11
  (head.foldlM (fun n58 c => (nchar c .alphanumSpaceSlash).map (38 * n58 + ·)) 0).map
    (· * 38 ^ (11 - head.length))

/-- The 22-bit hash of a callsign's number, in arithmetic of 64 bits. -/
def callsignHash (n58 : Nat) : Nat := (47055833459 * n58 % 2 ^ 64) >>> 42 &&& 0x3fffff

/-- `save_callsign` of `message.c`; its value is not used. -/
def ftxSaveCallsign (table : CallsignTable) (callsign : CString) : CallsignTable :=
  match callsignNumber callsign with
  | none => table
  | some n58 => saveCallsign table callsign (callsignHash n58)

/-- `lookup_callsign` of `message.c` -/
def ftxLookupCallsign (table : CallsignTable) (hashType : HashType) (hash : Nat) : CString :=
  match lookupCallsign table hashType hash with
  | (false, _) => bytes "<...>"
  | (true, callsign) => '<'.toUInt8 :: (callsign ++ ['>'.toUInt8])

def ntokens : Nat := 2063592

def max22 : Nat := 4194304

def maxgrid4 : Nat := 32400

/-- The six characters of a standard callsign. -/
def standardCallsign (n : Nat) : CString :=
  [charn (n / 27 / 27 / 27 / 10 / 36 % 37) .alphanumSpace,
    charn (n / 27 / 27 / 27 / 10 % 36) .alphanum, charn (n / 27 / 27 / 27 % 10) .numeric,
    charn (n / 27 / 27 % 27) .lettersSpace, charn (n / 27 % 27) .lettersSpace,
    charn (n % 27) .lettersSpace]

/-- The standard callsign without blanks, with the prefixes that do not fit put back. -/
def trimmedCallsign (callsign : CString) : CString :=
  if bytes "3D0" <+: callsign ∧ callsign.getD 3 0 ≠ ' '.toUInt8 then
    bytes "3DA0" ++ trimCopy (callsign.drop 3)
  else if callsign.getD 0 0 = 'Q'.toUInt8 ∧ isalpha (callsign.getD 1 0) then
    bytes "3X" ++ trimCopy (callsign.drop 1)
  else trimCopy callsign

/-- `unpack28`: the text of a callsign field, or nothing where it returns a negative value, and
the table of callsigns behind it. A field is a token, a hash or a standard callsign; the last
kind is saved in the table. -/
def unpack28 (n28 ip i3 : Nat) (table : CallsignTable) : Option CString × CallsignTable :=
  if n28 < ntokens then
    if n28 = 0 then (some (bytes "DE"), table)
    else if n28 = 1 then (some (bytes "QRZ"), table)
    else if n28 = 2 then (some (bytes "CQ"), table)
    else if n28 ≤ 1002 then (some (bytes "CQ " ++ intToDd (n28 - 3) 3 false), table)
    else if n28 ≤ 532443 then
      let n := n28 - 1003
      let letters := [n / 27 / 27 / 27 % 27, n / 27 / 27 % 27, n / 27 % 27, n % 27]
      (some (bytes "CQ " ++ trimFront (letters.map (charn · .lettersSpace))), table)
    else (none, table)
  else
    let n28 := n28 - ntokens
    if n28 < max22 then (some (ftxLookupCallsign table .bits22 n28), table)
    else
      let callsign := trimmedCallsign (standardCallsign (n28 - max22))
      if callsign.length < 3 then (none, table)
      else if ip ≠ 0 then
        if i3 = 1 then
          let callsign := callsign ++ bytes "/R"
          (some callsign, ftxSaveCallsign table callsign)
        else if i3 = 2 then
          let callsign := callsign ++ bytes "/P"
          (some callsign, ftxSaveCallsign table callsign)
        else (none, table)
      else (some callsign, ftxSaveCallsign table callsign)

def unpack58 (n58 : Nat) (table : CallsignTable) : CString × CallsignTable :=
  let characters := (List.range 11).map fun index =>
    charn (n58 / 38 ^ (10 - index) % 38) .alphanumSpaceSlash
  let callsign := trimCopy characters
  (callsign, if callsign.length ≥ 3 then ftxSaveCallsign table callsign else table)

/-- The four characters of a grid. -/
def gridSquare (n : Nat) : CString :=
  [UInt8.ofNat ('A'.toNat + n / 10 / 10 / 18 % 18), UInt8.ofNat ('A'.toNat + n / 10 / 10 % 18),
    UInt8.ofNat ('0'.toNat + n / 10 % 10), UInt8.ofNat ('0'.toNat + n % 10)]

/-- `unpackgrid`; it never fails. The numbers above `maxgrid4` stand for the fixed texts and
then for the reports, and only a grid or a report has an `R` in front of it. -/
def unpackgrid (igrid4 ir : Nat) : CString :=
  if igrid4 ≤ maxgrid4 then (if ir > 0 then bytes "R " else []) ++ gridSquare igrid4
  else
    let irpt := igrid4 - maxgrid4
    if irpt = 1 then []
    else if irpt = 2 then bytes "RRR"
    else if irpt = 3 then bytes "RR73"
    else if irpt = 4 then bytes "73"
    else (if ir > 0 then bytes "R" else []) ++ intToDd (irpt - 35) 2 true

/-- `FTX_PAYLOAD_LENGTH_BYTES` -/
def ftxPayloadLengthBytes : Nat := 10

/-- `ftx_message_t` without the signal's strength. -/
structure FtxMessage where
  payload : List UInt8
  hash : UInt16
  tenBytes : payload.length = ftxPayloadLengthBytes
deriving DecidableEq

namespace FtxMessage

variable (message : FtxMessage)

def byte (index : Nat) : Nat := (message.payload.getD index 0).toNat

def i3 : Nat := message.byte 9 >>> 3 &&& 7

def n3 : Nat := message.byte 8 <<< 2 &&& 4 ||| message.byte 9 >>> 6 &&& 3

def n29a : Nat :=
  message.byte 0 <<< 21 ||| message.byte 1 <<< 13 ||| message.byte 2 <<< 5 ||| message.byte 3 >>> 3

def n29b : Nat :=
  (message.byte 3 &&& 7) <<< 26 ||| message.byte 4 <<< 18 ||| message.byte 5 <<< 10 |||
    message.byte 6 <<< 2 ||| message.byte 7 >>> 6

def ir : Nat := (message.byte 7 &&& 0x20) >>> 5

def igrid4 : Nat :=
  (message.byte 7 &&& 0x1f) <<< 10 ||| message.byte 8 <<< 2 ||| message.byte 9 >>> 6

def n12 : Nat := message.byte 0 <<< 4 ||| message.byte 1 >>> 4

def n58 : Nat :=
  (message.byte 1 &&& 0xf) <<< 54 ||| message.byte 2 <<< 46 ||| message.byte 3 <<< 38 |||
    message.byte 4 <<< 30 ||| message.byte 5 <<< 22 ||| message.byte 6 <<< 14 |||
    message.byte 7 <<< 6 ||| message.byte 8 >>> 2

def iflip : Nat := message.byte 8 >>> 1 &&& 1

def nrpt : Nat := (message.byte 8 &&& 1) <<< 1 ||| message.byte 9 >>> 7

def icq : Nat := message.byte 9 >>> 6 &&& 1

end FtxMessage

/-- `ftx_message_type_t` -/
inductive FtxMessageType where
  | freeText
  | dxpedition
  | euVhf
  | arrlFd
  | telemetry
  | standard
  | arrlRtty
  | nonstdCall
  | wwrof
  | unknown
deriving DecidableEq

def ftxMessageGetType (message : FtxMessage) : FtxMessageType :=
  match message.i3 with
  | 0 =>
      match message.n3 with
      | 0 => .freeText
      | 1 => .dxpedition
      | 2 => .euVhf
      | 3 | 4 => .arrlFd
      | 5 => .telemetry
      | _ => .unknown
  | 1 | 2 => .standard
  | 3 => .arrlRtty
  | 4 => .nonstdCall
  | 5 => .wwrof
  | _ => .unknown

/-- `ftx_message_decode_std`: the three fields of a standard message; no fields unless it
returns `FTX_MESSAGE_RC_OK`. The first callsign is saved even when the second is not accepted.
-/
def ftxMessageDecodeStd (message : FtxMessage) (table : CallsignTable) :
    Option MessageFields × CallsignTable :=
  match unpack28 (message.n29a >>> 1) (message.n29a &&& 1) message.i3 table with
  | (none, table) => (none, table)
  | (some callTo, table) =>
      match unpack28 (message.n29b >>> 1) (message.n29b &&& 1) message.i3 table with
      | (none, table) => (none, table)
      | (some callDe, table) =>
          (some ⟨callTo, callDe, unpackgrid message.igrid4 message.ir⟩, table)

/-- The extra field of a message with a nonstandard call. -/
def nonstdExtra (icq nrpt : Nat) : CString :=
  if icq = 0 then
    if nrpt = 1 then bytes "RRR"
    else if nrpt = 2 then bytes "RR73"
    else if nrpt = 3 then bytes "73"
    else []
  else []

/-- `ftx_message_decode_nonstd`: a callsign of up to eleven characters and the hash of another
one, in an order that one bit gives. It never fails. -/
def ftxMessageDecodeNonstd (message : FtxMessage) (table : CallsignTable) :
    MessageFields × CallsignTable :=
  let (callDecoded, table) := unpack58 message.n58 table
  let call3 := ftxLookupCallsign table .bits12 message.n12
  let call1 := if message.iflip ≠ 0 then callDecoded else call3
  let call2 := if message.iflip ≠ 0 then call3 else callDecoded
  (⟨if message.icq = 0 then call1 else bytes "CQ", call2, nonstdExtra message.icq message.nrpt⟩,
    table)

/-- The loop of `ftx_message_decode_telemetry`. -/
def telemetryLoop (carry : UInt8) : List UInt8 → List UInt8
  | [] => []
  | byte :: rest => (carry <<< 7 ||| byte >>> 1) :: telemetryLoop (byte &&& 1) rest

def ftxMessageDecodeTelemetry (message : FtxMessage) : List UInt8 :=
  telemetryLoop 0 (message.payload.take 9)

def hexDigit (nibble : UInt8) : UInt8 :=
  if nibble > 9 then nibble - 10 + 'A'.toUInt8 else nibble + '0'.toUInt8

def ftxMessageDecodeTelemetryHex (message : FtxMessage) : CString :=
  (ftxMessageDecodeTelemetry message).flatMap fun (byte : UInt8) =>
    [hexDigit (byte >>> 4), hexDigit (byte &&& 0xf)]

/-- The long integer divided by 42, and the remainder. -/
def divideBy42 (rem : Nat) : List UInt8 → List UInt8 × Nat
  | [] => ([], rem)
  | byte :: rest =>
      let rem := rem <<< 8 ||| byte.toNat
      let (quotient, last) := divideBy42 (rem % 42) rest
      (UInt8.ofNat (rem / 42) :: quotient, last)

/-- The loop of `ftx_message_decode_free`, the last character first. -/
def freeTextLoop : (characters : Nat) → (b71 : List UInt8) → (text : CString) → CString
  | 0, _, text => text
  | characters + 1, b71, text =>
      let (quotient, rem) := divideBy42 0 b71
      freeTextLoop characters quotient (charn rem .full :: text)

def ftxMessageDecodeFree (message : FtxMessage) : CString :=
  trimCopy (freeTextLoop 13 (ftxMessageDecodeTelemetry message) [])

/-- `ftx_message_decode`: the text of a message by its type; no text unless it returns
`FTX_MESSAGE_RC_OK`, which it does not for the types that are not supported. -/
def ftxMessageDecode (message : FtxMessage) (table : CallsignTable) :
    Option CString × CallsignTable :=
  let text (fields : MessageFields) :=
    ftxMessageText (some fields.callTo) (some fields.callDe) (some fields.extra)
  match ftxMessageGetType message with
  | .standard =>
      let (fields, table) := ftxMessageDecodeStd message table
      (fields.map text, table)
  | .nonstdCall =>
      let (fields, table) := ftxMessageDecodeNonstd message table
      (some (text fields), table)
  | .freeText => (some (ftxMessageText (some (ftxMessageDecodeFree message)) none none), table)
  | .telemetry =>
      (some (ftxMessageText (some (ftxMessageDecodeTelemetryHex message)) none none), table)
  | _ => (none, table)

/-- The fields that `decode_report_fields` of `ft8_decoder.c` decodes a second time for the
report, and the table of callsigns behind it. -/
def reportFields (message : FtxMessage) (table : CallsignTable) :
    Option MessageFields × CallsignTable :=
  match ftxMessageGetType message with
  | .standard => ftxMessageDecodeStd message table
  | .nonstdCall =>
      let (fields, table) := ftxMessageDecodeNonstd message table
      (some fields, table)
  | _ => (none, table)

/-- `decode_report_fields` of `ft8_decoder.c` -/
def reportMessage (message : FtxMessage) (table : CallsignTable) (result : Ft8DecodeResult) :
    Ft8DecodeResult × CallsignTable :=
  let (fields, table) := reportFields message table
  (decodeReportFields fields result, table)

end AirspyhfWsprd.Ft8
