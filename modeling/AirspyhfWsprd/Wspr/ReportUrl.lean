import AirspyhfWsprd.Library.Printf

/-!
The upload URL of `reporter.c`: percent-encoded text fields and numbers in fixed
notation behind the configured endpoint.
-/

namespace AirspyhfWsprd.Wspr

open Library

/-- `struct wspr_report`, each text up to its terminator and each number with the value of its
`double`. -/
structure WsprReport where
  receiverCall : CString
  receiverGrid : CString
  date : CString
  time : CString
  transmitterCall : CString
  transmitterGrid : CString
  power : CString
  receiverFrequencyMhz : FloatValue
  transmitterFrequencyMhz : FloatValue
  snr : FloatValue
  dt : FloatValue
  drift : FloatValue
deriving DecidableEq

/-- `hexadecimal[digit]` -/
def hexadecimal (digit : UInt8) : UInt8 := (bytes "0123456789ABCDEF").getD digit.toNat 0

def unreserved (character : UInt8) : Bool :=
  isalnum character || character == '-'.toUInt8 || character == '_'.toUInt8 ||
    character == '.'.toUInt8 || character == '~'.toUInt8

/-- The loop of `url_encode` over the rest of the source, and the terminator. -/
def urlEncodeLoop (capacity : Nat) (output : CString) : CString → Option CString
  | [] => if output.length ≥ capacity then none else some output
  | character :: source =>
      if unreserved character then
        if output.length + 1 ≥ capacity then none
        else urlEncodeLoop capacity (output ++ [character]) source
      else if output.length + 3 ≥ capacity then none
      else
        urlEncodeLoop capacity (output ++
          ['%'.toUInt8, hexadecimal (character >>> 4), hexadecimal (character &&& 0x0f)]) source

/-- `url_encode`: the text left in a destination of this capacity, or a refusal. -/
def urlEncode (capacity : Nat) (source : CString) : Option CString :=
  urlEncodeLoop capacity [] source

/-- `wspr_report_format_url`: the URL, or nothing where it returns -1 because a text does not
fit into its encoding buffer or the URL not into `urlSize`. -/
def wsprReportFormatUrl (urlSize : Nat) (endpoint version : CString) (report : WsprReport) :
    Option CString := do
  let receiverCall ← urlEncode 37 report.receiverCall
  let receiverGrid ← urlEncode 19 report.receiverGrid
  let transmitterCall ← urlEncode 37 report.transmitterCall
  let transmitterGrid ← urlEncode 19 report.transmitterGrid
  let power ← urlEncode 7 report.power
  let url := endpoint ++ bytes "?function=wspr&rcall=" ++ receiverCall ++
    bytes "&rgrid=" ++ receiverGrid ++
    bytes "&rqrg=" ++ printFixed 6 report.receiverFrequencyMhz ++
    bytes "&date=" ++ report.date ++ bytes "&time=" ++ report.time ++
    bytes "&sig=" ++ printFixed 0 report.snr ++ bytes "&dt=" ++ printFixed 1 report.dt ++
    bytes "&drift=" ++ printFixed 0 report.drift ++
    bytes "&tqrg=" ++ printFixed 6 report.transmitterFrequencyMhz ++
    bytes "&tcall=" ++ transmitterCall ++ bytes "&tgrid=" ++ transmitterGrid ++
    bytes "&dbm=" ++ power ++ bytes "&version=" ++ version ++ bytes "&mode=2"
  if url.length ≥ urlSize then none else some url

end AirspyhfWsprd.Wspr
