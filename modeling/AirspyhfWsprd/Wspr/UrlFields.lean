import AirspyhfWsprd.Library.PrintedText
import AirspyhfWsprd.Library.UrlQuery
import AirspyhfWsprd.Wspr.ReportUrl

/-!
What the receiver of an upload reads out of its URL: the text fields of the report, byte
for byte. The encoding buffers have room for three characters for each byte of a field.
-/

namespace AirspyhfWsprd.Wspr

open Library

/-- The text fields that are percent-encoded, each with the size of its buffer. -/
def encodedFields (report : WsprReport) : List (Nat × CString) :=
  [(37, report.receiverCall), (19, report.receiverGrid), (37, report.transmitterCall),
    (19, report.transmitterGrid), (7, report.power)]

/-- The fields fit into the arrays of `struct wspr_report`. -/
structure FieldsFit (report : WsprReport) : Prop where
  receiverCall : report.receiverCall.length ≤ 12
  receiverGrid : report.receiverGrid.length ≤ 6
  transmitterCall : report.transmitterCall.length ≤ 12
  transmitterGrid : report.transmitterGrid.length ≤ 6
  power : report.power.length ≤ 2

/-- The names of the text fields in the query. -/
def fieldNames : List CString :=
  [bytes "rcall", bytes "rgrid", bytes "tcall", bytes "tgrid", bytes "dbm"]

/-- Each name of a text field has one value in the URL's query, which is the field. -/
def Recovers (url : CString) (report : WsprReport) : Prop :=
  fieldNames.map (queryValues url) = (encodedFields report).map fun (_, field) => [field]

/-- The parameters of an upload in the order of the URL, the text fields encoded. -/
def uploadParameters (version : CString) (report : WsprReport) : List (CString × CString) :=
  [(bytes "function", bytes "wspr"),
    (bytes "rcall", percentEncode unreserved report.receiverCall),
    (bytes "rgrid", percentEncode unreserved report.receiverGrid),
    (bytes "rqrg", printFixed 6 report.receiverFrequencyMhz),
    (bytes "date", report.date), (bytes "time", report.time),
    (bytes "sig", printFixed 0 report.snr), (bytes "dt", printFixed 1 report.dt),
    (bytes "drift", printFixed 0 report.drift),
    (bytes "tqrg", printFixed 6 report.transmitterFrequencyMhz),
    (bytes "tcall", percentEncode unreserved report.transmitterCall),
    (bytes "tgrid", percentEncode unreserved report.transmitterGrid),
    (bytes "dbm", percentEncode unreserved report.power), (bytes "version", version),
    (bytes "mode", bytes "2")]

variable {report : WsprReport}

/-- The encoder's loop succeeds exactly when the encoded text and its terminator fit into the
buffer, and the buffer then has the encoded text. -/
theorem urlEncodeLoop_eq (capacity : Nat) (output source : CString) :
    urlEncodeLoop capacity output source =
      if output.length + (percentEncode unreserved source).length < capacity then
        some (output ++ percentEncode unreserved source)
      else none := by
  induction source generalizing output with
  | nil =>
      simp only [urlEncodeLoop, percentEncode_nil, List.length_nil, Nat.add_zero, List.append_nil]
      split
      · rw [if_neg (by omega)]
      · rw [if_pos (by omega)]
  | cons character source ih =>
      rw [percentEncode_cons, percentEncodeByte, urlEncodeLoop]
      split
      · rw [List.length_append, List.length_singleton]
        split
        · rw [if_neg (by omega)]
        · rw [ih, List.length_append, List.length_singleton, Nat.add_assoc, List.append_assoc]
      · rw [List.length_append, List.length_cons, List.length_cons, List.length_singleton]
        split
        · rw [if_neg (by omega)]
        · rw [ih, List.length_append, List.length_cons, List.length_cons, List.length_singleton,
            Nat.add_assoc, List.append_assoc]
          rfl

theorem urlEncode_fits {capacity : Nat} {source : CString}
    (hroom : 3 * source.length < capacity) :
    urlEncode capacity source = some (percentEncode unreserved source) := by
  have hlength := percentEncode_length unreserved source
  rw [urlEncode, urlEncodeLoop_eq, List.length_nil, Nat.zero_add, if_pos (by omega),
    List.nil_append]

theorem FieldsFit.room (h : FieldsFit report) :
    ∀ field ∈ encodedFields report, 3 * field.2.length < field.1 := by
  obtain ⟨hreceiverCall, hreceiverGrid, htransmitterCall, htransmitterGrid, hpower⟩ := h
  unfold encodedFields
  simp only [List.forall_mem_cons]
  refine ⟨?_, ?_, ?_, ?_, ?_, List.forall_mem_nil _⟩ <;> omega

theorem encoded_quiet (text : CString) : Quiet (percentEncode unreserved text) := by
  have hencoded := percentEncode_encoded unreserved text
  exact ⟨hencoded.not_mem (by decide) (by decide) (by decide),
    hencoded.not_mem (by decide) (by decide) (by decide),
    hencoded.not_mem (by decide) (by decide) (by decide)⟩

theorem printFixed_quiet (digits : Nat) (value : FloatValue) : Quiet (printFixed digits value) := by
  have hnot {c : UInt8} (hc : ¬ (isalnum c = true ∨ c = '-'.toUInt8 ∨ c = '.'.toUInt8)) :
      c ∉ printFixed digits value := fun hmem => hc (mem_printFixed hmem)
  exact ⟨hnot (by decide), hnot (by decide), hnot (by decide)⟩

theorem uploadParameters_quiet {version : CString} (hdate : Quiet report.date)
    (htime : Quiet report.time) (hversion : Quiet version) :
    ∀ parameter ∈ uploadParameters version report, Quiet parameter.1 ∧ Quiet parameter.2 := by
  unfold uploadParameters
  simp only [List.forall_mem_cons, encoded_quiet, printFixed_quiet, hdate, htime, hversion,
    and_true]
  decide

/-- A URL that is returned is the endpoint and the query of the parameters. -/
theorem wsprReportFormatUrl_eq (h : FieldsFit report) {urlSize : Nat}
    {endpoint version url : CString}
    (hurl : wsprReportFormatUrl urlSize endpoint version report = some url) :
    url = endpoint ++ questionMark :: queryText (uploadParameters version report) := by
  have hencode : ∀ field ∈ encodedFields report,
      urlEncode field.1 field.2 = some (percentEncode unreserved field.2) :=
    fun field hfield => urlEncode_fits (h.room field hfield)
  unfold encodedFields at hencode
  simp only [List.forall_mem_cons] at hencode
  obtain ⟨hreceiverCall, hreceiverGrid, htransmitterCall, htransmitterGrid, hpower, -⟩ := hencode
  unfold wsprReportFormatUrl at hurl
  simp only [hreceiverCall, hreceiverGrid, htransmitterCall, htransmitterGrid, hpower,
    Option.bind_eq_bind, Option.bind_some] at hurl
  split at hurl
  · cases hurl
  · rw [← Option.some.inj hurl]
    simp only [List.append_assoc]
    rfl

/-- A reader that takes the query apart at its separators and decodes the values finds the
fields of the report: no encoded value has a separator in it. -/
theorem url_recovers (h : FieldsFit report) {urlSize : Nat} {endpoint version url : CString}
    (hendpoint : questionMark ∉ endpoint) (hdate : Quiet report.date) (htime : Quiet report.time)
    (hversion : Quiet version)
    (hurl : wsprReportFormatUrl urlSize endpoint version report = some url) :
    Recovers url report := by
  have hquiet := uploadParameters_quiet hdate htime hversion
  have hne : uploadParameters version report ≠ [] := List.cons_ne_nil _ _
  have hpairs : queryPairs (urlQuery url) = (uploadParameters version report).map
      fun parameter => (parameter.1, percentDecode parameter.2) := by
    rw [wsprReportFormatUrl_eq h hurl, urlQuery_queryText hendpoint hquiet,
      queryPairs_queryText hne hquiet]
  have hdecode (text : CString) : percentDecode (percentEncode unreserved text) = text :=
    percentDecode_percentEncode (by decide) text
  unfold Recovers fieldNames encodedFields uploadParameters at *
  simp only [List.map_cons, List.map_nil, queryValues, hpairs, hdecode]
  rfl

/-- The fields that a URL gives back are those of one report only. -/
theorem Recovers.fields_eq {url : CString} {other : WsprReport} (h : Recovers url report)
    (hother : Recovers url other) : encodedFields report = encodedFields other := by
  have heq := h.symm.trans hother
  unfold encodedFields at *
  simpa using heq

/-- Every text field is encoded into its buffer and read back from the URL, so that two reports
with one URL have the same text fields. What the encoder writes holds none of the characters
that a query is split at. -/
theorem url_recovers_fields (h : FieldsFit report) :
    (∀ field ∈ encodedFields report, ∃ text, urlEncode field.1 field.2 = some text ∧
      PercentEncoded unreserved text ∧ percentDecode text = field.2) ∧
    ∀ urlSize endpoint version url, questionMark ∉ endpoint → Quiet report.date →
      Quiet report.time → Quiet version →
      wsprReportFormatUrl urlSize endpoint version report = some url →
        Recovers url report ∧
        ∀ other, FieldsFit other → Quiet other.date → Quiet other.time →
          wsprReportFormatUrl urlSize endpoint version other = some url →
            encodedFields report = encodedFields other := by
  constructor
  · intro field hfield
    exact ⟨_, urlEncode_fits (h.room field hfield), percentEncode_encoded unreserved field.2,
      percentDecode_percentEncode (by decide) field.2⟩
  · intro urlSize endpoint version url hendpoint hdate htime hversion hurl
    have hrecovers := url_recovers h hendpoint hdate htime hversion hurl
    refine ⟨hrecovers, fun other hother hotherDate hotherTime hotherUrl => ?_⟩
    apply hrecovers.fields_eq
    exact url_recovers hother hendpoint hotherDate hotherTime hversion hotherUrl

/-- A report with a slash, brackets and separators in its text fields. -/
def exampleReport : WsprReport where
  receiverCall := bytes "N0CALL/P"
  receiverGrid := bytes "FN42"
  date := bytes "260518"
  time := bytes "1200"
  transmitterCall := bytes "<PJ4/K1ABC>"
  transmitterGrid := bytes "a&b=%"
  power := bytes "23"
  receiverFrequencyMhz := .finite false 14 0
  transmitterFrequencyMhz := .finite false 14 0
  snr := .finite true 21 0
  dt := .finite false 0 0
  drift := .finite false 0 0

/-- The URL of one report, and its fields read back. -/
theorem exampleReport_recovered :
    ∃ url, wsprReportFormatUrl 512 (bytes "https://wsprnet.org/post") (bytes "airhf-060")
      exampleReport = some url ∧ Recovers url exampleReport := by
  have hfits : FieldsFit exampleReport :=
    ⟨by decide, by decide, by decide, by decide, by decide⟩
  have hsome : (wsprReportFormatUrl 512 (bytes "https://wsprnet.org/post") (bytes "airhf-060")
      exampleReport).isSome := by decide +kernel
  obtain ⟨url, hurl⟩ := Option.isSome_iff_exists.mp hsome
  exact ⟨url, hurl, ((url_recovers_fields hfits).2 512 (bytes "https://wsprnet.org/post")
    (bytes "airhf-060") url (by decide) (by decide) (by decide) (by decide) hurl).1⟩

end AirspyhfWsprd.Wspr
